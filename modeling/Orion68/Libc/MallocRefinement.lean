import Orion68.Libc.MallocLists

namespace Orion68.MallocRefinement

open LinkedLists Chains Regions FirstFit Malloc MallocLists

variable {s : Settings} {h h' : Heap} {F U R : List BlockPtr} {b p : BlockPtr} {A : Arena}

section Reinsertion

theorem map_orderedInsert :
    (F.orderedInsert (fun p q => h.addr p ≤ h.addr q) b).map (region h) =
      insertByStart (region h b) (F.map (region h)) :=
  List.map_orderedInsert _ _ _ F b (fun _ _ => Iff.rfl) fun _ _ => Iff.rfl

/-- A block that is on no list is put on the free list, and the free blocks that touch are joined. -/
theorem reinsert_spec (hF : Chain h.next h.free F) (hU : Chain h.next h.used U) (hR : Chain h.next h.fresh R)
    (hnd : (b :: (F ++ (U ++ R))).Nodup) (hlen : (b :: (F ++ (U ++ R))).length = s.heapMaxBlocks.toNat)
    (hb : ∀ a ∈ b :: F, Bounded h a) :
    ∃ h' F' R', (insertBlock s b h).bind (compact s) = some h' ∧ Lists s h' F' U R' ∧
      F'.map (region h') = coalesce (insertByStart (region h b) (F.map (region h))) ∧
      U.map (region h') = U.map (region h) ∧ h'.top = h.top := by
  have hmem := List.nodup_cons.mp hnd
  have hnd' := hmem.2
  simp only [List.mem_append, not_or] at hmem
  obtain ⟨⟨hbF, hbU, hbR⟩, -⟩ := hmem
  rw [List.nodup_append, List.nodup_append] at hnd'
  obtain ⟨-, ⟨-, -, hUR⟩, hFUR⟩ := hnd'
  have hlen' : F.length + 1 < s.rounds := by
    simp only [List.length_cons, List.length_append] at hlen
    rw [Settings.rounds]
    omega
  obtain ⟨h₁, hins, hfr₁, hF₁, hfresh₁, hreg₁⟩ := insertBlock_spec hF hbF (by omega : F.length < s.rounds)
  have hU₁ : ∀ a ∈ U, a ∉ b :: F := fun a ha haF => by
    rcases List.mem_cons.mp haF with rfl | haF
    · exact hbU ha
    · exact hFUR a haF a (List.mem_append_left R ha) rfl
  have hR₁ : ∀ a ∈ R, a ∉ b :: F := fun a ha haF => by
    rcases List.mem_cons.mp haF with rfl | haF
    · exact hbR ha
    · exact hFUR a haF a (List.mem_append_right U ha) rfl
  have hperm := List.perm_orderedInsert (fun p q => h.addr p ≤ h.addr q) b F
  rw [← map_orderedInsert]
  generalize F.orderedInsert (fun p q => h.addr p ≤ h.addr q) b = G at *
  have hG : ∀ a, a ∈ G ↔ a ∈ b :: F := fun a => hperm.mem_iff
  have hR' : Chain h₁.next h₁.fresh R := by
    rw [hfresh₁]
    exact hfr₁.chain hR hR₁
  have hGlen : G.length < s.rounds := by
    rw [hperm.length_eq]
    exact hlen'
  obtain ⟨h₂, F', R', hcomp, hfr₂, hF₂, hR₂, hperm₂, hco⟩ := compactFrom_spec (h := h₁) (R := R)
    (show Chain h₁.next h₁.free ([] ++ G) from hF₁) hR'
    (fun a ha haR => hR₁ a haR ((hG a).mp ha))
    (fun a ha => by
      rw [Bounded, hreg₁]
      exact hb a ((hG a).mp ha))
    hGlen hGlen
  have hU₂ : ∀ a ∈ U, a ∉ G ++ R := fun a ha haGR => by
    rcases List.mem_append.mp haGR with haG | haR
    · exact hU₁ a ha ((hG a).mp haG)
    · exact hUR a ha a haR rfl
  have hall : (F' ++ (U ++ R')).Perm (b :: (F ++ (U ++ R))) := by
    refine (List.perm_append_comm_assoc F' U R').trans ?_
    refine (hperm₂.append_left U).trans ?_
    refine ((hperm.append_right R).append_left U).trans ?_
    rw [List.cons_append]
    exact List.perm_middle.trans ((List.perm_append_comm_assoc U F R).cons b)
  refine ⟨h₂, F', R', ?_, ⟨hF₂, ?_, hR₂, hall.nodup_iff.mpr hnd, hall.length_eq.trans hlen⟩, ?_, ?_, ?_⟩
  · rw [hins, Option.bind_some, compact, hF₁.head_eq]
    exact hcomp
  · rw [hfr₂.used_eq, hfr₁.used_eq]
    exact hfr₂.chain (hfr₁.chain hU hU₁) hU₂
  · rw [hco]
    exact congrArg coalesce (List.map_congr_left fun a _ => hreg₁ a)
  · rw [hfr₂.map_region hU₂, hfr₁.map_region hU₁]
  · rw [hfr₂.top_eq, hfr₁.top_eq]

end Reinsertion

def setting (s : Settings) : Setting where
  base := (s.heap + sizeofHeap + s.heapMaxBlocks * sizeofBlock).toNat
  limit := s.heapLimit.toNat
  grain := s.heapAlignment.toNat
  rest := s.heapSplitThresh.toNat
  slots := s.heapMaxBlocks.toNat

def arena (h : Heap) (F U : List BlockPtr) : Arena := ⟨F.map (region h), U.map (region h), h.top.toNat⟩

/-- The blocks on the free and on the used list are the regions of the arena. -/
def Represents (s : Settings) (h : Heap) (A : Arena) : Prop :=
  ∃ F U R, Lists s h F U R ∧ A = arena h F U

section Freeing

theorem bounded_of_valid (hA : (arena h F U).Valid (setting s)) {a : BlockPtr} (ha : a ∈ F ++ U) : Bounded h a := by
  have hmem : region h a ∈ (arena h F U).regions := by
    rw [Arena.regions, arena, ← List.map_append]
    exact List.mem_map_of_mem ha
  have hstop := (hA.tiling.within _ hmem).2
  have htop := hA.tiling.top_le
  have hlim := s.heapLimit.toNat_lt
  simp only [Bounded, setting] at *
  omega

theorem block_linkUsed {l : List BlockPtr} {prev v : Option BlockPtr} (hp : ∀ z, prev = some z → z ∈ l)
    {a : BlockPtr} (ha : a ∉ l) : (h.linkUsed prev v).block a = h.block a := by
  cases prev with
  | none => rfl
  | some z =>
      have haz : a ≠ z := fun he => ha (he ▸ hp z rfl)
      exact block_setNext_of_ne haz

theorem region_linkUsed (prev v : Option BlockPtr) (a : BlockPtr) : region (h.linkUsed prev v) a = region h a := by
  cases prev with
  | none => rfl
  | some z => exact region_setNext v a

theorem used_linkUsed (m : List BlockPtr) (v : Option BlockPtr) :
    (h.linkUsed m.getLast? v).used = if m = [] then v else h.used := by
  cases m using List.reverseRecOn with
  | nil => rfl
  | append_singleton m z => simp [Heap.linkUsed, Heap.setNext]

theorem lists_linkUsed (prev v : Option BlockPtr) :
    (h.linkUsed prev v).free = h.free ∧ (h.linkUsed prev v).fresh = h.fresh ∧ (h.linkUsed prev v).top = h.top := by
  cases prev <;> exact ⟨rfl, rfl, rfl⟩

/-- `free` gives back the region that starts at the pointer, and changes nothing when there is none. -/
theorem free_refines (hr : Represents s h A) (hA : A.Valid (setting s)) (ptr : UInt32) :
    (∃ B h', A.release ptr.toNat = some B ∧ free s ptr h = some (true, h') ∧ Represents s h' B) ∨
      (A.release ptr.toNat = none ∧ free s ptr h = some (false, h)) := by
  obtain ⟨F, U, R, hl, rfl⟩ := hr
  have hstart : ∀ a, decide (ptr = h.addr a) = decide ((region h a).start = ptr.toNat) := fun a => by
    rw [decide_eq_decide, ← UInt32.toNat_inj]
    exact eq_comm
  have hlen : U.length < s.rounds := hl.length_lt ((List.sublist_append_left U R).trans (List.sublist_append_right F _))
  rcases hl.used.search_cases (fun a => ptr = h.addr a) hlen with ⟨m, b, n, rfl, hm, hb, hs⟩ | ⟨hm, hs⟩
  · left
    simp only [hstart] at hm hb
    have hfound := find_map_append (f := region h) (p := fun r => r.start = ptr.toNat) (k := n) hm hb
    have hperm : (F ++ ((m ++ b :: n) ++ R)).Perm (b :: (F ++ ((m ++ n) ++ R))) := by
      have : (m ++ b :: n).Perm (b :: (m ++ n)) := List.perm_middle
      exact ((this.append_right R).append_left F).trans List.perm_middle
    have hnd := hperm.nodup_iff.mp hl.nodup
    have hnb : h.next b = n.head? := next_of_append hl.used.seg
    have hdisj := hl.nodup
    rw [List.nodup_append, List.nodup_append] at hdisj
    obtain ⟨-, ⟨hmn, -, hUR⟩, hFU⟩ := hdisj
    have hblock : ∀ a, a ∉ m ++ b :: n → (h.linkUsed m.getLast? (h.next b)).block a = h.block a := fun a ha =>
      block_linkUsed (fun z hz => List.mem_append_left _ (List.mem_of_getLast? hz)) ha
    have hlists := lists_linkUsed (h := h) m.getLast? (h.next b)
    have hF : Chain (h.linkUsed m.getLast? (h.next b)).next (h.linkUsed m.getLast? (h.next b)).free F := by
      rw [hlists.1]
      exact hl.free.congr fun a ha => next_eq_of_block (hblock a fun hU =>
        hFU a ha a (List.mem_append_left R hU) rfl)
    have hR : Chain (h.linkUsed m.getLast? (h.next b)).next (h.linkUsed m.getLast? (h.next b)).fresh R := by
      rw [hlists.2.1]
      exact hl.fresh.congr fun a ha => next_eq_of_block (hblock a fun hU => hUR a hU a ha rfl)
    have hU : Chain (h.linkUsed m.getLast? (h.next b)).next (h.linkUsed m.getLast? (h.next b)).used (m ++ n) := by
      rw [used_linkUsed, Heap.next_linkUsed, hnb]
      have hn : Seg h.next n none := hl.used.seg_drop.2
      exact hl.used.splice hn fun z hz hzn =>
        (List.nodup_append.mp hmn).2.2 z hz z (List.mem_cons_of_mem b hzn) rfl
    obtain ⟨h', F', R', hre, hl', hF', hU', htop⟩ := reinsert_spec hF hU hR hnd (hperm.length_eq ▸ hl.length_eq)
      fun a ha => by
        rw [Bounded, region_linkUsed]
        refine bounded_of_valid hA ?_
        rcases List.mem_cons.mp ha with rfl | ha
        · simp
        · exact List.mem_append_left _ ha
    refine ⟨_, h', ?_, ?_, F', m ++ n, R', hl', rfl⟩
    · rw [Arena.release, arena, hfound.1, Option.map_some, hfound.2, arena, hF', hU', htop, hlists.2.2]
      have hreg : region (h.linkUsed m.getLast? (h.next b)) = region h := funext fun a => region_linkUsed _ _ a
      rw [hreg]
    · rw [free, hs, Option.bind_some]
      simp only [hre, Option.map_some]
  · right
    simp only [hstart] at hm
    have hnone := find_map_none (f := region h) (p := fun r => r.start = ptr.toNat) hm
    exact ⟨by rw [Arena.release, arena, hnone]; rfl, by rw [free, hs]; rfl⟩

end Freeing

section Taking

variable {m n R' : List BlockPtr} {num : UInt32}

theorem region_takeBlock (prev : Option BlockPtr) (a : BlockPtr) : region (takeBlock prev b h) a = region h a :=
  (region_setNext _ a).trans (linkFree_region _ _ a)

theorem takeBlock_heads (prev : Option BlockPtr) :
    (takeBlock prev b h).top = h.top ∧ (takeBlock prev b h).fresh = h.fresh := by
  cases prev <;> exact ⟨rfl, rfl⟩

theorem takeBlock_lists (hl : Lists s h (m ++ b :: n) U R) :
    Lists s (takeBlock m.getLast? b h) (m ++ n) (b :: U) R := by
  have hperm : ((m ++ b :: n) ++ (U ++ R)).Perm ((m ++ n) ++ (b :: U ++ R)) := by
    have h₁ : (m ++ b :: n).Perm (b :: (m ++ n)) := List.perm_middle
    exact (h₁.append_right (U ++ R)).trans List.perm_middle.symm
  have hnd := hl.nodup
  have hdisj := (List.nodup_append.mp hnd).2.2
  have hbmn : b ∉ m ++ n := fun hb => by
    have := (List.nodup_append.mp hnd).1
    exact (List.nodup_cons.mp (List.perm_middle.nodup_iff.mp this)).1 hb
  have hbU : b ∉ U := fun hb => hdisj b (by simp) b (List.mem_append_left R hb) rfl
  have hbR : b ∉ R := fun hb => hdisj b (by simp) b (List.mem_append_right U hb) rfl
  have hnb : h.next b = n.head? := next_of_append hl.free.seg
  have hnext : (takeBlock m.getLast? b h).next = Function.update (relink m.getLast? n.head? h.next) b h.used := by
    rw [← hnb, ← Heap.next_linkFree]
    have hused : (h.linkFree m.getLast? (h.next b)).used = h.used := (linkFree_frame (l := m)
      fun z hz => List.mem_of_getLast? hz).used_eq
    rw [← hused]
    exact Heap.next_setNext _ b _
  have hkeep : ∀ a ∈ U ++ R, relink m.getLast? n.head? h.next a = h.next a := fun a ha =>
    relink_of_not_mem (getLast?_ne_some fun ham => hdisj a (List.mem_append_left _ ham) a ha rfl)
  have hU : Chain (relink m.getLast? n.head? h.next) h.used U :=
    hl.used.congr fun a ha => hkeep a (List.mem_append_left R ha)
  have hR : Chain (relink m.getLast? n.head? h.next) h.fresh R :=
    hl.fresh.congr fun a ha => hkeep a (List.mem_append_right U ha)
  refine ⟨?_, ?_, ?_, hperm.nodup_iff.mp hnd, hperm.length_eq ▸ hl.length_eq⟩
  · have hn : Seg h.next n none := hl.free.seg_drop.2
    have hmn := (List.nodup_append.mp (List.nodup_append.mp hnd).1).2.2
    have hsp := hl.free.splice hn fun z hz hzn => hmn z hz z (List.mem_cons_of_mem b hzn) rfl
    have hfree : (takeBlock m.getLast? b h).free = if m = [] then n.head? else h.free := by
      rw [← hnb]
      exact free_linkFree m _
    rw [hnext, hfree]
    exact hsp.congr fun a ha => Function.update_of_ne (ne_of_mem_of_not_mem ha hbmn) _ _
  · rw [hnext]
    exact hU.cons hbU
  · rw [hnext, (takeBlock_heads m.getLast?).2]
    exact hR.congr fun a ha => Function.update_of_ne (ne_of_mem_of_not_mem ha hbR) _ _

theorem resizeTop_lists (hl : Lists s h F U R) : Lists s (resizeTop num p h) F U R :=
  hl.congr (h.next_setSize p num) rfl rfl rfl

theorem region_resizeTop_self : region (resizeTop num p h) p = ⟨(region h p).start, num.toNat⟩ := by
  simp [region, resizeTop, Heap.addr, Heap.size, Heap.setSize]

theorem region_resizeTop {a : BlockPtr} (ha : a ≠ p) : region (resizeTop num p h) a = region h a := by
  simp [region, resizeTop, Heap.addr, Heap.size, Heap.setSize, ha]

theorem newBlock_lists (hl : Lists s h F U (p :: R)) : Lists s (newBlock num p h) F (p :: U) R := by
  have hnext : (newBlock num p h).next = Function.update h.next p h.used := by
    have := ({ h with fresh := h.next p } : Heap).setAddr p h.top |>.next_setNext p h.used
    rw [Heap.next_setAddr] at this
    rw [newBlock]
    exact (Heap.next_setSize _ p num).trans this
  have hperm : (F ++ (U ++ p :: R)).Perm (F ++ (p :: U ++ R)) := List.perm_middle.append_left F
  have hnd := hl.nodup
  rw [List.nodup_append, List.nodup_append] at hnd
  obtain ⟨-, ⟨-, hpR, hUR⟩, hFUR⟩ := hnd
  have hpF : p ∉ F := fun hp => hFUR p hp p (by simp) rfl
  have hpU : p ∉ U := fun hp => hUR p hp p (by simp) rfl
  refine ⟨?_, ?_, ?_, hperm.nodup_iff.mp hl.nodup, hperm.length_eq ▸ hl.length_eq⟩
  · rw [hnext]
    exact ⟨hl.free.head_eq, hl.free.seg.update_of_not_mem hpF _⟩
  · rw [hnext]
    exact hl.used.cons hpU
  · rw [hnext]
    have htail := hl.fresh.tail
    exact ⟨htail.head_eq, htail.seg.update_of_not_mem (List.nodup_cons.mp hpR).1 _⟩

theorem region_newBlock_self : region (newBlock num p h) p = ⟨h.top.toNat, num.toNat⟩ := by
  simp [region, newBlock, Heap.addr, Heap.size, Heap.setSize, Heap.setNext, Heap.setAddr]

theorem region_newBlock {a : BlockPtr} (ha : a ≠ p) : region (newBlock num p h) a = region h a := by
  simp [region, newBlock, Heap.addr, Heap.size, Heap.setSize, Heap.setNext, Heap.setAddr, ha]

theorem carveBlock_next {q : BlockPtr} : (carveBlock num p q h).next = h.next := by
  rw [carveBlock, Heap.next_setSize, Heap.next_setAddr]
  exact h.next_setSize p num

theorem region_carveBlock {q a : BlockPtr} (ha : a ≠ p) (haq : a ≠ q) :
    region (carveBlock num p q h) a = region h a := by
  simp [region, carveBlock, Heap.addr, Heap.size, Heap.setSize, Heap.setAddr, ha, haq]

theorem region_carveBlock_self {q : BlockPtr} (hpq : p ≠ q) :
    region (carveBlock num p q h) p = ⟨(region h p).start, num.toNat⟩ := by
  simp [region, carveBlock, Heap.addr, Heap.size, Heap.setSize, Heap.setAddr, hpq]

theorem region_carveBlock_rest {q : BlockPtr} (hpq : p ≠ q) (hb : Bounded h p) (hle : num.toNat ≤ (region h p).size) :
    region (carveBlock num p q h) q = ⟨(region h p).start + num.toNat, (region h p).size - num.toNat⟩ := by
  have hle' : num ≤ h.size p := hle
  have hsub := UInt32.toNat_sub_of_le _ _ hle'
  have hadd : (h.addr p + num).toNat = (h.addr p).toNat + num.toNat := by
    rw [UInt32.toNat_add]
    simp only [Bounded, region, Region.stop] at hb hle
    omega
  have hne : q ≠ p := hpq.symm
  simp [region, carveBlock, Heap.addr, Heap.size, Heap.setSize, Heap.setAddr, hpq] at *
  exact ⟨hadd, hsub⟩

theorem split_spec {q : BlockPtr} (hl : Lists s h F (b :: U) (q :: R)) (hb : ∀ a ∈ b :: F, Bounded h a)
    (hle : num ≤ h.size b) :
    ∃ h' F' R', (insertBlock s q (carveBlock num b q h)).bind (compact s) = some h' ∧ Lists s h' F' (b :: U) R' ∧
      F'.map (region h') = coalesce (insertByStart
        ⟨(region h b).start + num.toNat, (region h b).size - num.toNat⟩ (F.map (region h))) ∧
      (b :: U).map (region h') = ⟨(region h b).start, num.toNat⟩ :: U.map (region h) ∧ h'.top = h.top := by
  have hnd := hl.nodup
  rw [List.nodup_append, List.nodup_append, List.nodup_cons] at hnd
  obtain ⟨-, ⟨⟨hbU, -⟩, -, hUq⟩, hFUR⟩ := hnd
  have hqF : ∀ a ∈ F, a ≠ q := fun a ha => hFUR a ha q (by simp)
  have hbF : ∀ a ∈ F, a ≠ b := fun a ha => hFUR a ha b (by simp)
  have hqU : ∀ a ∈ b :: U, a ≠ q := fun a ha => hUq a ha q (by simp)
  have hbq := hqU b (by simp)
  obtain ⟨hbb, hbF'⟩ := List.forall_mem_cons.mp hb
  have hregb : region (carveBlock num b q h) b = ⟨(region h b).start, num.toNat⟩ := region_carveBlock_self hbq
  have hregq := region_carveBlock_rest hbq hbb hle
  have hFmap : F.map (region (carveBlock num b q h)) = F.map (region h) :=
    List.map_congr_left fun a ha => region_carveBlock (hbF a ha) (hqF a ha)
  have hUmap : U.map (region (carveBlock num b q h)) = U.map (region h) :=
    List.map_congr_left fun a ha =>
      region_carveBlock (ne_of_mem_of_not_mem ha hbU) (hqU a (List.mem_cons_of_mem b ha))
  have hperm : (F ++ (b :: U ++ q :: R)).Perm (q :: (F ++ (b :: U ++ R))) :=
    (List.perm_middle.append_left F).trans List.perm_middle
  have hnext : (carveBlock num b q h).next = h.next := carveBlock_next
  have hfresh : (carveBlock num b q h).fresh = h.next q := congrFun (h.next_setSize b num) q
  obtain ⟨h', F', R', hre, hl', hF', hU', htop'⟩ := reinsert_spec
    (show Chain (carveBlock num b q h).next (carveBlock num b q h).free F by rw [hnext]; exact hl.free)
    (show Chain (carveBlock num b q h).next (carveBlock num b q h).used (b :: U) by rw [hnext]; exact hl.used)
    (show Chain (carveBlock num b q h).next (carveBlock num b q h).fresh R by
      rw [hnext, hfresh]
      exact hl.fresh.tail)
    (hperm.nodup_iff.mp hl.nodup) (hperm.length_eq ▸ hl.length_eq) (fun a ha => by
      rcases List.mem_cons.mp ha with rfl | ha
      · have hle' : num.toNat ≤ (region h b).size := hle
        rw [Bounded, hregq]
        simp only [Bounded, Region.stop] at hbb ⊢
        omega
      · rw [Bounded, region_carveBlock (hbF a ha) (hqF a ha)]
        exact hbF' a ha)
  rw [hFmap, hregq] at hF'
  have hU'' : (b :: U).map (region (carveBlock num b q h)) = ⟨(region h b).start, num.toNat⟩ :: U.map (region h) := by
    rw [List.map_cons, hregb, hUmap]
  exact ⟨h', F', R', hre, hl', hF', hU'.trans hU'', htop'⟩

end Taking

section Allocating

variable {num : UInt32}

theorem isTop_iff (hb : Bounded h p) (hlim : (region h p).start + num.toNat < 2 ^ 32) :
    isTop s num h p = true ↔ (arena h F U).Last (setting s) num.toNat (region h p) := by
  have hstop : (h.addr p + h.size p).toNat = (region h p).stop := by
    rw [UInt32.toNat_add]
    exact Nat.mod_eq_of_lt hb
  have hend : (h.addr p + num).toNat = (region h p).start + num.toNat := by
    rw [UInt32.toNat_add]
    exact Nat.mod_eq_of_lt hlim
  simp only [isTop, decide_eq_true_eq, UInt32.le_iff_toNat_le, hstop, hend, Arena.Last, arena, setting]

theorem slots_iff (hl : Lists s h F U R) :
    (arena h F U).regions.length < (setting s).slots ↔ ∃ p R', R = p :: R' := by
  have hlen := hl.length_eq
  simp only [Arena.regions, arena, setting, List.length_append, List.length_map] at *
  cases R with
  | nil =>
      rw [List.length_nil] at hlen
      simp
      omega
  | cons p R =>
      rw [List.length_cons] at hlen
      simp
      omega

/-- `alloc_block` takes out of the arena what it is asked for, rounded up, and changes nothing when
there is not enough. -/
theorem allocBlock_refines (hr : Represents s h A) (hA : A.Valid (setting s))
    (hnum : s.heapLimit.toNat + (s.roundUp num).toNat < 2 ^ 32) :
    (∃ r B b h', A.acquire (setting s) (s.roundUp num).toNat = some (r, B) ∧
      allocBlock s num h = some (some b, h') ∧ region h' b = r ∧ Represents s h' B) ∨
      (A.acquire (setting s) (s.roundUp num).toNat = none ∧ allocBlock s num h = some (none, h)) := by
  obtain ⟨F, U, R, hl, rfl⟩ := hr
  rw [allocBlock]
  generalize s.roundUp num = n at *
  have hlen : F.length < s.rounds := hl.length_lt (List.sublist_append_left F _)
  have hbound : ∀ a ∈ F, Bounded h a := fun a ha => bounded_of_valid hA (List.mem_append_left U ha)
  have hstart : ∀ a ∈ F, (region h a).start + n.toNat < 2 ^ 32 := fun a ha => by
    have hmem : region h a ∈ (arena h F U).regions :=
      List.mem_append_left _ (List.mem_map_of_mem ha)
    have hstop := (hA.tiling.within _ hmem).2
    have htop := hA.tiling.top_le
    simp only [Region.stop, setting] at hstop htop
    omega
  have hserves : ∀ a ∈ F, decide (isTop s n h a = true ∨ n ≤ h.size a) =
      decide ((arena h F U).Serves (setting s) n.toNat (region h a)) := fun a ha => by
    rw [decide_eq_decide, Arena.Serves, isTop_iff (hbound a ha) (hstart a ha)]
    exact Iff.rfl
  rcases hl.free.search_cases (fun a => isTop s n h a ∨ n ≤ h.size a) hlen with ⟨m, b, k, rfl, hm, hb, hs⟩ | ⟨hm, hs⟩
  · left
    have hbF : b ∈ m ++ b :: k := by simp
    have hm' : ∀ a ∈ m, decide ((arena h (m ++ b :: k) U).Serves (setting s) n.toNat (region h a)) = false :=
      fun a ha => (hserves a (List.mem_append_left _ ha)) ▸ hm a ha
    have hb' : decide ((arena h (m ++ b :: k) U).Serves (setting s) n.toNat (region h b)) = true :=
      (hserves b hbF) ▸ hb
    have hfound := find_map_append (f := region h) (p := fun r => (arena h (m ++ b :: k) U).Serves (setting s) n.toNat r)
      (k := k) hm' hb'
    have hl' := takeBlock_lists hl
    have hreg : region (takeBlock m.getLast? b h) = region h := funext fun a => region_takeBlock _ a
    have hheads := takeBlock_heads (h := h) (b := b) m.getLast?
    have hnd := hl'.nodup
    have htop := isTop_iff (U := U) (F := m ++ b :: k) (s := s) (hbound b hbF) (hstart b hbF)
    have hbk : ∀ a ∈ m ++ k, a ≠ b := fun a ha he => by
      rw [List.nodup_append] at hnd
      exact hnd.2.2 a ha b (by simp) he
    have hbU : ∀ a ∈ U, a ≠ b := fun a ha he => by
      rw [List.nodup_append, List.cons_append, List.nodup_cons] at hnd
      exact hnd.2.1.1 (List.mem_append_left R (he ▸ ha))
    rw [hs, Option.bind_some]
    simp only
    by_cases hlast : isTop s n h b = true
    · -- the last free block gets a new end
      refine ⟨_, _, b, _, acquire_last hfound.1 hfound.2 (htop.mp hlast), if_pos hlast, ?_, m ++ k, b :: U, R,
        resizeTop_lists hl', ?_⟩
      · rw [region_resizeTop_self, hreg]
      · have hend : (resizeTop n b (takeBlock m.getLast? b h)).top.toNat = (region h b).start + n.toNat := by
          have haddr : ((takeBlock m.getLast? b h).addr b).toNat = (region h b).start :=
            congrArg Region.start (congrFun hreg b)
          have htop' : (resizeTop n b (takeBlock m.getLast? b h)).top = (takeBlock m.getLast? b h).addr b + n := by
            simp [resizeTop]
          rw [htop', UInt32.toNat_add, haddr]
          exact Nat.mod_eq_of_lt (hstart b hbF)
        have hsame : ∀ l : List BlockPtr, (∀ a ∈ l, a ≠ b) →
            l.map (region (resizeTop n b (takeBlock m.getLast? b h))) = l.map (region h) := fun l hne =>
          List.map_congr_left fun a ha => by rw [region_resizeTop (hne a ha), hreg]
        simp only [arena, List.map_cons, region_resizeTop_self, hend, hsame _ hbk, hsame _ hbU, hreg]
    · have hlast' := fun hl => hlast (htop.mpr hl)
      have hle : n ≤ h.size b := by
        rcases of_decide_eq_true hb with h' | h'
        · exact absurd h' hlast
        · exact h'
      rw [if_neg hlast, hheads.2]
      cases R with
      | nil =>
          have hfresh : h.fresh = none := hl.fresh.head_eq
          have hslots : ¬ (arena h (m ++ b :: k) U).regions.length < (setting s).slots := fun hs => by
            simpa using (slots_iff hl).mp hs
          refine ⟨_, _, b, _, acquire_whole hfound.1 hfound.2 hlast' fun hs => hslots hs.1, by rw [hfresh], ?_,
            m ++ k, b :: U, [], hl', ?_⟩
          · rw [hreg]
          · simp only [arena, List.map_cons, hreg, hheads.1]
      | cons q R =>
          have hfresh : h.fresh = some q := hl.fresh.head_eq
          have hslots := (slots_iff hl).mpr ⟨q, R, rfl⟩
          have hsize : (takeBlock m.getLast? b h).size b = h.size b :=
            UInt32.toNat_inj.mp (congrArg Region.size (congrFun hreg b))
          have hexcess : s.heapSplitThresh ≤ h.size b - n ↔ (setting s).rest ≤ (region h b).size - n.toNat := by
            rw [UInt32.le_iff_toNat_le, UInt32.toNat_sub_of_le _ _ hle]
            exact Iff.rfl
          rw [hfresh]
          simp only [splitBlock, hsize]
          by_cases hrest : s.heapSplitThresh ≤ h.size b - n
          · -- what is beyond the request becomes a free block of its own
            have hbounded : ∀ a ∈ b :: (m ++ k), Bounded (takeBlock m.getLast? b h) a := fun a ha => by
              rw [Bounded, hreg]
              refine hbound a ?_
              simp only [List.mem_cons, List.mem_append] at ha ⊢
              rcases ha with ha | ha | ha <;> simp [ha]
            have hle' : n ≤ (takeBlock m.getLast? b h).size b := by rwa [hsize]
            obtain ⟨h', F', R', hre, hl'', hF', hU', htop'⟩ := split_spec hl' hbounded hle'
            rw [hreg] at hF' hU'
            refine ⟨_, _, b, h', acquire_split hfound.1 hfound.2 hlast' hslots (hexcess.mp hrest), ?_, ?_,
              F', b :: U, R', hl'', ?_⟩
            · rw [if_pos hrest, hre]
              rfl
            · rw [List.map_cons] at hU'
              exact (List.cons.inj hU').1
            · have htop'' : h'.top = h.top := htop'.trans hheads.1
              simp only [arena, hF', hU', htop'']
          · refine ⟨_, _, b, _, acquire_whole hfound.1 hfound.2 hlast' fun hs => hrest (hexcess.mpr hs.2),
              by rw [if_neg hrest]; rfl, by rw [hreg], m ++ k, b :: U, q :: R, hl', ?_⟩
            simp only [arena, List.map_cons, hreg, hheads.1]
  · have hm' : ∀ a ∈ F, decide ((arena h F U).Serves (setting s) n.toNat (region h a)) = false :=
      fun a ha => (hserves a ha) ▸ hm a ha
    have hnone := find_map_none (f := region h) (p := fun r => (arena h F U).Serves (setting s) n.toNat r) hm'
    have htop := hA.tiling.top_le
    have hlim : h.top + n ≤ s.heapLimit ↔ (arena h F U).top + n.toNat ≤ (setting s).limit := by
      have hle : h.top.toNat ≤ s.heapLimit.toNat := htop
      rw [UInt32.le_iff_toNat_le, UInt32.toNat_add, Nat.mod_eq_of_lt (by omega)]
      exact Iff.rfl
    rw [hs, Option.bind_some]
    simp only
    cases R with
    | nil =>
        right
        have hfresh : h.fresh = none := hl.fresh.head_eq
        have hslots : ¬ (arena h F U).regions.length < (setting s).slots := fun hs => by
          simpa using (slots_iff hl).mp hs
        exact ⟨acquire_none hnone fun hs => hslots hs.1, by rw [hfresh]⟩
    | cons q R =>
        have hfresh : h.fresh = some q := hl.fresh.head_eq
        have hslots := (slots_iff hl).mpr ⟨q, R, rfl⟩
        rw [hfresh]
        simp only
        by_cases hfit : h.top + n ≤ s.heapLimit
        · left
          have hnd := hl.nodup
          rw [List.nodup_append, List.nodup_append] at hnd
          obtain ⟨-, ⟨-, -, hUq⟩, hFq⟩ := hnd
          have hFmap : F.map (region (newBlock n q h)) = F.map (region h) :=
            List.map_congr_left fun a ha => region_newBlock (hFq a ha q (by simp))
          have hUmap : U.map (region (newBlock n q h)) = U.map (region h) :=
            List.map_congr_left fun a ha => region_newBlock (hUq a ha q (by simp))
          have htop' : (newBlock n q h).top.toNat = h.top.toNat + n.toNat := by
            have hle : h.top.toNat ≤ s.heapLimit.toNat := htop
            rw [newBlock, UInt32.toNat_add]
            exact Nat.mod_eq_of_lt (by omega)
          refine ⟨_, _, q, _, acquire_new hnone hslots (hlim.mp hfit), if_pos hfit, region_newBlock_self, F, q :: U, R,
            newBlock_lists hl, ?_⟩
          simp only [arena, List.map_cons, region_newBlock_self, hFmap, hUmap, htop']
        · right
          exact ⟨acquire_none hnone fun hs => hfit (hlim.mpr hs.2), if_neg hfit⟩

end Allocating

end Orion68.MallocRefinement
