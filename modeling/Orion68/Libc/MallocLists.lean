import Orion68.Libc.Malloc
import Orion68.Lib.FirstFit

namespace Orion68.MallocLists

open LinkedLists Chains Regions FirstFit Malloc

def region (h : Heap) (p : BlockPtr) : Region := ⟨(h.addr p).toNat, (h.size p).toNat⟩

/-- The blocks on the three lists: every block is on exactly one. -/
structure Lists (s : Settings) (h : Heap) (F U R : List BlockPtr) : Prop where
  free : Chain h.next h.free F
  used : Chain h.next h.used U
  fresh : Chain h.next h.fresh R
  nodup : (F ++ (U ++ R)).Nodup
  length_eq : (F ++ (U ++ R)).length = s.heapMaxBlocks.toNat

/-- Only the blocks of `l`, and the head of the list that they are on, are changed. -/
structure Frame (h h' : Heap) (l : List BlockPtr) : Prop where
  block_eq : ∀ a, a ∉ l → h'.block a = h.block a
  used_eq : h'.used = h.used
  top_eq : h'.top = h.top

variable {s : Settings} {h h' h'' : Heap} {F U R l : List BlockPtr} {b p : BlockPtr}

section Frames

theorem next_eq_of_block (hb : h'.block p = h.block p) : h'.next p = h.next p := congrArg Block.next hb

theorem region_eq_of_block (hb : h'.block p = h.block p) : region h' p = region h p := by
  rw [region, region, Heap.addr, Heap.addr, Heap.size, Heap.size, hb]

theorem Frame.trans {m : List BlockPtr} (h₁ : Frame h h' l) (h₂ : Frame h' h'' m) : Frame h h'' (l ++ m) where
  block_eq a ha := by
    rw [List.mem_append, not_or] at ha
    rw [h₂.block_eq a ha.2, h₁.block_eq a ha.1]
  used_eq := h₂.used_eq.trans h₁.used_eq
  top_eq := h₂.top_eq.trans h₁.top_eq

theorem Frame.mono {m : List BlockPtr} (hf : Frame h h' l) (hlm : ∀ a ∈ l, a ∈ m) : Frame h h' m where
  block_eq a ha := hf.block_eq a fun hal => ha (hlm a hal)
  used_eq := hf.used_eq
  top_eq := hf.top_eq

theorem Frame.chain {m : List BlockPtr} {head : Option BlockPtr} (hf : Frame h h' l) (hc : Chain h.next head m)
    (hd : ∀ a ∈ m, a ∉ l) : Chain h'.next head m :=
  hc.congr fun a ha => next_eq_of_block (hf.block_eq a (hd a ha))

theorem Frame.map_region {m : List BlockPtr} (hf : Frame h h' l) (hd : ∀ a ∈ m, a ∉ l) :
    m.map (region h') = m.map (region h) :=
  List.map_congr_left fun a ha => region_eq_of_block (hf.block_eq a (hd a ha))

theorem Lists.congr (hl : Lists s h F U R) (hnext : h'.next = h.next) (hfree : h'.free = h.free)
    (hused : h'.used = h.used) (hfresh : h'.fresh = h.fresh) : Lists s h' F U R :=
  ⟨by rw [hnext, hfree]; exact hl.free, by rw [hnext, hused]; exact hl.used,
    by rw [hnext, hfresh]; exact hl.fresh, hl.nodup, hl.length_eq⟩

theorem Lists.length_lt (hl : Lists s h F U R) {m : List BlockPtr} (hm : m.Sublist (F ++ (U ++ R))) :
    m.length < s.rounds := by
  have := hm.length_le
  rw [hl.length_eq] at this
  exact Nat.lt_succ_of_le this

end Frames

section Insertion

theorem block_setNext_of_ne {a : BlockPtr} {n : Option BlockPtr} (ha : a ≠ p) :
    (h.setNext p n).block a = h.block a := Function.update_of_ne ha _ _

theorem region_setNext (n : Option BlockPtr) (a : BlockPtr) : region (h.setNext p n) a = region h a := by
  simp [region]

theorem linkFree_frame {prev v : Option BlockPtr} (hp : ∀ z, prev = some z → z ∈ l) :
    Frame h (h.linkFree prev v) l := by
  cases prev with
  | none => exact ⟨fun _ _ => rfl, rfl, rfl⟩
  | some z => exact ⟨fun a ha => block_setNext_of_ne fun haz => ha (haz ▸ hp z rfl), rfl, rfl⟩

theorem linkFree_region (prev v : Option BlockPtr) (a : BlockPtr) : region (h.linkFree prev v) a = region h a := by
  cases prev with
  | none => rfl
  | some z => exact region_setNext v a

theorem free_linkFree (m : List BlockPtr) (v : Option BlockPtr) :
    (h.linkFree m.getLast? v).free = if m = [] then v else h.free := by
  cases m using List.reverseRecOn with
  | nil => rfl
  | append_singleton m z => simp [Heap.linkFree, Heap.setNext]

theorem fresh_linkFree (prev v : Option BlockPtr) : (h.linkFree prev v).fresh = h.fresh := by
  cases prev <;> rfl

theorem insertBlock_spec (hF : Chain h.next h.free F) (hb : b ∉ F) (hlen : F.length < s.rounds) :
    ∃ h', insertBlock s b h = some h' ∧ Frame h h' (b :: F) ∧
      Chain h'.next h'.free (F.orderedInsert (fun p q => h.addr p ≤ h.addr q) b) ∧
      h'.fresh = h.fresh ∧ ∀ a, region h' a = region h a := by
  have hs := @search_eq _ _ _ _ (fun ptr => h.addr b ≤ h.addr ptr) _ none hF hlen
  rw [Option.or_none] at hs
  have hsplit := List.takeWhile_append_dropWhile (p := fun a => !decide (h.addr b ≤ h.addr a)) (l := F)
  have hins : F.orderedInsert (fun p q => h.addr p ≤ h.addr q) b =
      (F.takeWhile fun a => !decide (h.addr b ≤ h.addr a)) ++
        b :: F.dropWhile fun a => !decide (h.addr b ≤ h.addr a) := by
    rw [List.orderedInsert_eq_take_drop]
    simp only [decide_not]
  rw [hins]
  generalize F.takeWhile (fun a => !decide (h.addr b ≤ h.addr a)) = m at *
  generalize F.dropWhile (fun a => !decide (h.addr b ≤ h.addr a)) = n at *
  subst hsplit
  refine ⟨(h.linkFree m.getLast? (some b)).setNext b n.head?, by rw [insertBlock, hs]; rfl, ?_, ?_,
    fresh_linkFree _ _, fun a => ?_⟩
  · have hlink : Frame h (h.linkFree m.getLast? (some b)) (b :: (m ++ n)) :=
      linkFree_frame fun z hz => List.mem_cons_of_mem b (List.mem_append_left n (List.mem_of_getLast? hz))
    refine ⟨fun a ha => ?_, hlink.used_eq, hlink.top_eq⟩
    have hab : a ≠ b := fun he => ha (he ▸ List.mem_cons_self)
    rw [block_setNext_of_ne hab, hlink.block_eq a ha]
  · have := hF.insert hb
    rw [← Heap.next_linkFree, ← free_linkFree] at this
    rw [Heap.next_setNext]
    exact this
  · rw [region_setNext, linkFree_region]

end Insertion

section Release

@[simp] theorem next_releaseBlock : (releaseBlock p h).next = Function.update h.next p h.fresh := by
  rw [releaseBlock, Heap.next_setSize, Heap.next_setAddr]
  exact h.next_setNext p h.fresh

theorem releaseBlock_frame : Frame h (releaseBlock p h) [p] where
  block_eq a ha := by
    have hap : a ≠ p := fun he => ha (he ▸ List.mem_singleton_self p)
    simp [releaseBlock, Heap.setSize, Heap.setAddr, Heap.setNext, hap]
  used_eq := rfl
  top_eq := rfl

theorem releaseBlocks_spec {k t : List BlockPtr} {fuel : Nat} (hk : Chain h.next (k ++ t).head? (k ++ t))
    (hR : Chain h.next h.fresh R) (hd : ∀ a ∈ k, a ∉ R) (hf : k.length < fuel) :
    ∃ h', releaseBlocks fuel (k ++ t).head? t.head? h = some h' ∧ Frame h h' k ∧ h'.free = h.free ∧
      Chain h'.next h'.fresh (k.reverse ++ R) := by
  induction k generalizing h R fuel with
  | nil =>
      obtain ⟨fuel, rfl⟩ := Nat.exists_eq_succ_of_ne_zero (by omega : fuel ≠ 0)
      refine ⟨h, ?_, ⟨fun _ _ => rfl, rfl, rfl⟩, rfl, hR⟩
      rw [List.nil_append, releaseBlocks, if_pos rfl]
  | cons a k ih =>
      obtain ⟨fuel, rfl⟩ := Nat.exists_eq_succ_of_ne_zero (by omega : fuel ≠ 0)
      obtain ⟨hak, -⟩ := List.nodup_cons.mp hk.nodup
      have hne : some a ≠ t.head? := fun he =>
        hak (List.mem_append_right k (List.mem_of_mem_head? he.symm))
      have hk' : Chain (releaseBlock a h).next (k ++ t).head? (k ++ t) := by
        rw [next_releaseBlock]
        exact ⟨rfl, hk.tail.seg.update_of_not_mem hak _⟩
      have hR' : Chain (releaseBlock a h).next (releaseBlock a h).fresh (a :: R) := by
        rw [next_releaseBlock]
        exact hR.cons (hd a (by simp))
      have hd' : ∀ c ∈ k, c ∉ a :: R := fun c hc hcR => by
        rcases List.mem_cons.mp hcR with rfl | hcR
        · exact hak (List.mem_append_left t hc)
        · exact hd c (List.mem_cons_of_mem a hc) hcR
      obtain ⟨h', hrel, hfr, hfree, hch⟩ := ih hk' hR' hd' (by simpa using hf)
      refine ⟨h', ?_, releaseBlock_frame.trans hfr, hfree, by simpa using hch⟩
      have hn : h.next a = (k ++ t).head? := hk.tail.head_eq
      rw [List.cons_append, List.head?_cons, releaseBlocks, if_neg hne, Option.bind_some, hn, hrel]

end Release

section Compaction

def Bounded (h : Heap) (p : BlockPtr) : Prop := (region h p).stop < 2 ^ 32

theorem adjacent_iff {q : BlockPtr} (hb : Bounded h p) :
    h.addr p + h.size p = h.addr q ↔ (region h p).stop = (region h q).start := by
  have hadd : (h.addr p + h.size p).toNat = (region h p).stop := by
    rw [UInt32.toNat_add]
    exact Nat.mod_eq_of_lt hb
  rw [← UInt32.toNat_inj, hadd]
  rfl

theorem lastAdjacent_spec {fuel : Nat} (hl : Chain h.next (some p) (p :: l)) (hb : ∀ a ∈ p :: l, Bounded h a)
    (hf : l.length < fuel) :
    ∃ k t, l = k ++ t ∧ lastAdjacent h fuel p (h.next p) = some (k.getLast?.getD p) ∧
      Touching ((p :: k).map (region h)) ∧
      ∀ q, t.head? = some q → (region h (k.getLast?.getD p)).stop ≠ (region h q).start := by
  induction l generalizing p fuel with
  | nil =>
      obtain ⟨fuel, rfl⟩ := Nat.exists_eq_succ_of_ne_zero (by omega : fuel ≠ 0)
      have hn : h.next p = none := hl.tail.head_eq
      refine ⟨[], [], rfl, ?_, List.IsChain.singleton _, fun q hq => by cases hq⟩
      rw [hn]
      rfl
  | cons q l ih =>
      obtain ⟨fuel, rfl⟩ := Nat.exists_eq_succ_of_ne_zero (by omega : fuel ≠ 0)
      have hn : h.next p = some q := hl.tail.head_eq
      obtain ⟨hbp, hbl⟩ := List.forall_mem_cons.mp hb
      rw [hn, lastAdjacent]
      by_cases hpq : (region h p).stop = (region h q).start
      · obtain ⟨k, t, rfl, hlast, htouch, hgap⟩ := ih (hn ▸ hl.tail) hbl (by simpa using hf)
        refine ⟨q :: k, t, rfl, ?_, touching_cons_cons.mpr ⟨hpq, htouch⟩, ?_⟩
        · rw [if_pos ((adjacent_iff hbp).mpr hpq), hlast, List.getLast?_cons, Option.getD_some]
        · rw [List.getLast?_cons, Option.getD_some]
          exact hgap
      · refine ⟨[], q :: l, rfl, ?_, List.IsChain.singleton _, fun c hc => ?_⟩
        · rw [if_neg fun he => hpq ((adjacent_iff hbp).mp he)]
          rfl
        · cases hc
          exact hpq

theorem toNat_newSize {q : BlockPtr} (hb : Bounded h q) (hle : (region h p).start ≤ (region h q).start) :
    (h.addr q - h.addr p + h.size q).toNat = (region h q).stop - (region h p).start := by
  have hle' : h.addr p ≤ h.addr q := hle
  have hsub := UInt32.toNat_sub_of_le _ _ hle'
  simp only [Bounded, region, Region.stop] at *
  rw [UInt32.toNat_add, hsub]
  omega

theorem mergeUpTo_spec {m k t : List BlockPtr} (hF : Chain h.next h.free (m ++ p :: (k ++ t)))
    (hR : Chain h.next h.fresh R) (hd : ∀ a ∈ k, a ∉ R) (hpR : p ∉ R) (hlen : k.length < s.rounds)
    (htouch : Touching ((p :: k).map (region h))) (hb : ∀ a ∈ p :: k, Bounded h a) :
    ∃ h', mergeUpTo s p (k.getLast?.getD p) h = some h' ∧ Frame h h' (p :: k) ∧
      Chain h'.next h'.free (m ++ p :: t) ∧ Chain h'.next h'.fresh (k.reverse ++ R) ∧
      region h' p = ⟨(region h p).start, (region h (k.getLast?.getD p)).stop - (region h p).start⟩ := by
  have hpkt : Chain h.next (some p) (p :: (k ++ t)) := ⟨rfl, hF.seg_drop⟩
  obtain ⟨hpk, hkt⟩ := List.nodup_cons.mp hpkt.nodup
  cases hk : k.getLast? with
  | none =>
      obtain rfl := List.getLast?_eq_none_iff.mp hk
      refine ⟨h, if_neg (by simp), ⟨fun _ _ => rfl, rfl, rfl⟩, hF, hR, ?_⟩
      rw [Option.getD_none, Region.stop, Nat.add_sub_cancel_left]
  | some z =>
      have hz : z ∈ k := List.mem_of_getLast? hk
      have hzp : z ≠ p := fun he => hpk (List.mem_append_left t (he ▸ hz))
      obtain ⟨k', rfl⟩ := List.getLast?_eq_some_iff.mp hk
      have hnp : h.next p = (k' ++ [z] ++ t).head? := hpkt.tail.head_eq
      have hnz : h.next z = t.head? := by
        refine next_of_append (m := k') ?_
        have := hpkt.tail.seg
        rwa [List.append_assoc] at this
      have hstart : (region h p).start ≤ (region h z).start := by
        have := htouch.start_le.1
        simpa using this
      have hsize : (h.addr z - h.addr p + h.size z).toNat = (region h z).stop - (region h p).start :=
        toNat_newSize (hb z (List.mem_cons_of_mem p hz)) hstart
      -- the size is set first, and changes no link
      generalize hn : h.addr z - h.addr p + h.size z = n at hsize
      obtain ⟨h₂, hrel, hfr, hfree, hch⟩ := releaseBlocks_spec (h := h.setSize p n) (k := k' ++ [z]) (t := t)
        (R := R) (by rw [Heap.next_setSize, ← hnp]; exact hpkt.tail)
        (by rw [Heap.next_setSize]; exact hR) hd hlen
      have hbp : h₂.block p = { h.block p with size := n } := by
        rw [hfr.block_eq p fun hp => hpk (List.mem_append_left t hp)]
        simp [Heap.setSize]
      have hframe : Frame h h₂ (p :: (k' ++ [z])) := by
        refine ⟨fun a ha => ?_, hfr.used_eq, hfr.top_eq⟩
        rw [List.mem_cons, not_or] at ha
        rw [hfr.block_eq a ha.2]
        simp [Heap.setSize, ha.1]
      refine ⟨h₂.setNext p t.head?, ?_, ⟨fun a ha => ?_, hframe.used_eq, hframe.top_eq⟩, ?_, ?_, ?_⟩
      · rw [Option.getD_some, mergeUpTo, if_pos hzp]
        simp only [Heap.next_setSize, hnp, hnz, hn, hrel, Option.map_some]
      · have hap : a ≠ p := fun he => ha (he ▸ List.mem_cons_self)
        rw [block_setNext_of_ne hap, hframe.block_eq a ha]
      · have hfree' : (h₂.setNext p t.head?).free = h.free := hfree
        rw [Heap.next_setNext, hfree']
        refine (hF.skip).congr fun a ha => ?_
        by_cases hap : a = p
        · rw [hap, Function.update_self, Function.update_self]
        · rw [Function.update_of_ne hap, Function.update_of_ne hap]
          refine next_eq_of_block (hframe.block_eq a fun hak => ?_)
          have hnd := hF.nodup
          have hak' : a ∈ k' ++ [z] := (List.mem_cons.mp hak).resolve_left hap
          rw [List.nodup_append, List.nodup_cons, List.nodup_append] at hnd
          rcases List.mem_append.mp ha with ham | hat
          · exact hnd.2.2 a ham a (List.mem_cons_of_mem p (List.mem_append_left t hak')) rfl
          · exact hnd.2.1.2.2.2 a hak' a ((List.mem_cons.mp hat).resolve_left hap) rfl
      · rw [Heap.next_setNext]
        refine ⟨hch.head_eq, hch.seg.update_of_not_mem (fun hp => ?_) _⟩
        rcases List.mem_append.mp hp with hpk' | hpR'
        · exact hpk (List.mem_append_left t (List.mem_reverse.mp hpk'))
        · exact hpR hpR'
      · rw [region_setNext, region, Heap.addr, Heap.size, hbp, Option.getD_some, ← hsize]
        rfl

theorem compactFrom_spec {pre rest : List BlockPtr} {fuel : Nat} (hF : Chain h.next h.free (pre ++ rest))
    (hR : Chain h.next h.fresh R) (hd : ∀ a ∈ rest, a ∉ R) (hb : ∀ a ∈ rest, Bounded h a)
    (hlen : rest.length < s.rounds) (hf : rest.length < fuel) :
    ∃ h' rest' R', compactFrom s fuel rest.head? h = some h' ∧ Frame h h' (rest ++ R) ∧
      Chain h'.next h'.free (pre ++ rest') ∧ Chain h'.next h'.fresh R' ∧ (rest' ++ R').Perm (rest ++ R) ∧
      rest'.map (region h') = coalesce (rest.map (region h)) := by
  induction hn : rest.length using Nat.strong_induction_on generalizing h pre rest R fuel with
  | _ n ih =>
    obtain ⟨fuel, rfl⟩ := Nat.exists_eq_succ_of_ne_zero (by omega : fuel ≠ 0)
    cases rest with
    | nil => exact ⟨h, [], R, rfl, ⟨fun _ _ => rfl, rfl, rfl⟩, hF, hR, List.Perm.refl _, rfl⟩
    | cons p l =>
        have hpl : Chain h.next (some p) (p :: l) := ⟨rfl, hF.seg_drop⟩
        rw [List.length_cons] at hn hlen hf
        obtain ⟨k, t, rfl, hlast, htouch, hgap⟩ := lastAdjacent_spec hpl hb (show l.length < s.rounds by omega)
        have hnd := hpl.nodup
        rw [List.nodup_cons, List.mem_append, not_or, List.nodup_append] at hnd
        obtain ⟨⟨hpk, hpt⟩, -, -, hkt⟩ := hnd
        have hpR := hd p (by simp)
        have hkR : ∀ a ∈ k, a ∉ R := fun a ha => hd a (by simp [ha])
        have htR : ∀ a ∈ t, a ∉ R := fun a ha => hd a (by simp [ha])
        rw [List.length_append] at hn hlen hf
        obtain ⟨h₁, hmerge, hfr₁, hF₁, hR₁, hreg⟩ := mergeUpTo_spec hF hR hkR hpR
          (show k.length < s.rounds by omega) htouch
          (fun a ha => hb a (by rcases List.mem_cons.mp ha with rfl | ha <;> simp [*]))
        have htk : ∀ a ∈ t, a ∉ p :: k := fun a ha hak => by
          rcases List.mem_cons.mp hak with rfl | hak
          · exact hpt ha
          · exact hkt a hak a ha rfl
        have htreg := hfr₁.map_region htk
        have hn₁ : h₁.next p = t.head? := next_of_append hF₁.seg
        have hF₁' : Chain h₁.next h₁.free ((pre ++ [p]) ++ t) := by simpa using hF₁
        have htR₁ : ∀ a ∈ t, a ∉ k.reverse ++ R := fun a ha haR => by
          rcases List.mem_append.mp haR with hak | haR
          · exact hkt a (List.mem_reverse.mp hak) a ha rfl
          · exact htR a ha haR
        have htb : ∀ a ∈ t, Bounded h₁ a := fun a ha => by
          rw [Bounded, region_eq_of_block (hfr₁.block_eq a (htk a ha))]
          exact hb a (by simp [ha])
        obtain ⟨h₂, rest', R', hrest, hfr₂, hF₂, hR₂, hperm, hco⟩ := ih t.length (by omega) hF₁' hR₁ htR₁ htb
          (by omega) (show t.length < fuel by omega) rfl
        refine ⟨h₂, p :: rest', R', ?_, ?_, by simpa using hF₂, hR₂, ?_, ?_⟩
        · rw [List.head?_cons, compactFrom, hlast, Option.bind_some, hmerge, Option.bind_some, hn₁, hrest]
        · refine (hfr₁.trans hfr₂).mono fun a ha => ?_
          simp only [List.mem_append, List.mem_cons, List.mem_reverse] at ha
          rcases ha with (ha | ha) | ha | ha | ha <;> simp [ha]
        · refine (hperm.cons p).trans (List.Perm.cons p ?_)
          have hcomm := List.perm_append_comm_assoc t k.reverse R
          exact (hcomm.trans ((List.reverse_perm k).append_right (t ++ R))).trans (by simp)
        · have hpt' : p ∉ t ++ (k.reverse ++ R) := by simp [hpt, hpk, hpR]
          have hlast' : (k.map (region h)).getLast?.getD (region h p) = region h (k.getLast?.getD p) := by
            rw [List.getLast?_map, Option.getD_map]
          have hco' := coalesceOnto_touching (m := t.map (region h)) htouch fun b hb => by
            rw [List.head?_map, Option.map_eq_some_iff] at hb
            obtain ⟨q, hq, rfl⟩ := hb
            rw [hlast']
            exact hgap q hq
          rw [List.map_cons, region_eq_of_block (hfr₂.block_eq p hpt'), hreg, hco, htreg, List.map_cons,
            List.map_append, coalesce, hco', hlast']

end Compaction

end Orion68.MallocLists
