import Orion68.Lib.Regions

namespace Orion68.FirstFit

open Regions

/-- The stretch that is given out, the multiple that sizes come in, the least rest that is split
off a region, and the number of regions that can be kept track of. -/
structure Setting where
  base : Nat
  limit : Nat
  grain : Nat
  rest : Nat
  slots : Nat

/-- The regions of a stretch up to `top`; what lies above has never been given out. -/
structure Arena where
  free : List Region
  used : List Region
  top : Nat

variable {S : Setting} {A : Arena} {n top : Nat} {r : Region} {l free used : List Region}

section Tilings

/-- The regions fill the stretch from `base` to `top`; each starts and ends at a multiple of the
grain. -/
structure Tiling (S : Setting) (l : List Region) (top : Nat) : Prop where
  positive : Positive l
  apart : l.Pairwise Region.Apart
  within : Within S.base top l
  filled : S.base + total l = top
  grained : ∀ r ∈ l, S.grain ∣ r.size ∧ S.grain ∣ r.start - S.base
  top_le : top ≤ S.limit

theorem tiling_nil (h : S.base ≤ S.limit) : Tiling S [] S.base :=
  ⟨List.forall_mem_nil _, List.Pairwise.nil, List.forall_mem_nil _, rfl, List.forall_mem_nil _, h⟩

theorem Tiling.perm {m : List Region} (h : Tiling S l top) (hp : l.Perm m) : Tiling S m top where
  positive r hr := h.positive r (hp.mem_iff.mpr hr)
  apart := (hp.pairwise_iff fun hrs => hrs.symm).mp h.apart
  within r hr := h.within r (hp.mem_iff.mpr hr)
  filled := by rw [← total_perm hp, h.filled]
  grained r hr := h.grained r (hp.mem_iff.mpr hr)
  top_le := h.top_le

theorem dvd_total {k : Nat} (h : ∀ r ∈ l, k ∣ r.size) : k ∣ total l := by
  induction l with
  | nil => exact Nat.dvd_zero k
  | cons r l ih =>
      obtain ⟨hr, hl⟩ := List.forall_mem_cons.mp h
      exact Nat.dvd_add hr (ih hl)

theorem Tiling.resize (h : Tiling S (r :: l) top) (hr : top ≤ r.stop) (hn : 0 < n) (hg : S.grain ∣ n)
    (hlim : r.start + n ≤ S.limit) : Tiling S (⟨r.start, n⟩ :: l) (r.start + n) := by
  obtain ⟨hrw, hw⟩ := List.forall_mem_cons.mp h.within
  obtain ⟨hrp, hp⟩ := positive_cons.mp h.positive
  obtain ⟨hra, ha⟩ := List.pairwise_cons.mp h.apart
  obtain ⟨hrg, hgr⟩ := List.forall_mem_cons.mp h.grained
  have hfill := h.filled
  have hbefore : ∀ s ∈ l, s.stop ≤ r.start := by
    intro s hs
    rcases hra s hs with hrs | hsr
    · have := (hw s hs).2
      have := hp s hs
      simp only [Region.stop] at *
      omega
    · exact hsr
  simp only [Region.stop, total_cons] at *
  refine ⟨positive_cons.mpr ⟨hn, hp⟩, List.pairwise_cons.mpr ⟨fun s hs => .inr (hbefore s hs), ha⟩, ?_, ?_,
    List.forall_mem_cons.mpr ⟨⟨hg, hrg.2⟩, hgr⟩, hlim⟩
  · refine List.forall_mem_cons.mpr ⟨⟨hrw.1, Nat.le_refl _⟩, fun s hs => ⟨(hw s hs).1, ?_⟩⟩
    exact Nat.le_trans (hbefore s hs) (Nat.le_add_right _ _)
  · change S.base + (n + total l) = r.start + n
    omega

theorem Tiling.split (h : Tiling S (r :: l) top) (hn : 0 < n) (hlt : n < r.size) (hg : S.grain ∣ n) :
    Tiling S (⟨r.start, n⟩ :: ⟨r.start + n, r.size - n⟩ :: l) top := by
  obtain ⟨hrw, hw⟩ := List.forall_mem_cons.mp h.within
  obtain ⟨hrp, hp⟩ := positive_cons.mp h.positive
  obtain ⟨hra, ha⟩ := List.pairwise_cons.mp h.apart
  obtain ⟨⟨hrs, hrb⟩, hgr⟩ := List.forall_mem_cons.mp h.grained
  have hfill := h.filled
  simp only [Region.stop, Region.Apart, total_cons] at *
  refine ⟨positive_cons.mpr ⟨hn, positive_cons.mpr ⟨Nat.sub_pos_of_lt hlt, hp⟩⟩, ?_, ?_, ?_, ?_, h.top_le⟩
  · refine List.pairwise_cons.mpr ⟨List.forall_mem_cons.mpr ⟨.inl (Nat.le_refl _), fun s hs => ?_⟩,
      List.pairwise_cons.mpr ⟨fun s hs => ?_, ha⟩⟩ <;>
    · have := hra s hs
      simp only [Region.stop, Region.Apart] at *
      omega
  · refine List.forall_mem_cons.mpr ⟨?_, List.forall_mem_cons.mpr ⟨?_, hw⟩⟩ <;>
    · simp only [Region.stop] at *
      omega
  · simp only [total_cons]
    omega
  · have hsub : r.start + n - S.base = (r.start - S.base) + n := by omega
    refine List.forall_mem_cons.mpr ⟨⟨hg, hrb⟩, List.forall_mem_cons.mpr ⟨⟨Nat.dvd_sub hrs hg, ?_⟩, hgr⟩⟩
    rw [hsub]
    exact Nat.dvd_add hrb hg

theorem Tiling.extend (h : Tiling S l top) (hn : 0 < n) (hg : S.grain ∣ n) (hlim : top + n ≤ S.limit) :
    Tiling S (⟨top, n⟩ :: l) (top + n) := by
  have hfill := h.filled
  have htop : S.grain ∣ top - S.base := by
    rw [← hfill, Nat.add_sub_cancel_left]
    exact dvd_total fun r hr => (h.grained r hr).1
  refine ⟨positive_cons.mpr ⟨hn, h.positive⟩, List.pairwise_cons.mpr ⟨fun s hs => .inr (h.within s hs).2, h.apart⟩,
    ?_, ?_, List.forall_mem_cons.mpr ⟨⟨hg, htop⟩, h.grained⟩, hlim⟩
  · refine List.forall_mem_cons.mpr ⟨⟨?_, Nat.le_refl _⟩, fun s hs => ⟨(h.within s hs).1, ?_⟩⟩
    · rw [← hfill]
      exact Nat.le_add_right _ _
    · exact Nat.le_trans (h.within s hs).2 (Nat.le_add_right _ _)
  · change S.base + (n + total l) = top + n
    omega

theorem Tiling.ascending_insert (h : Tiling S (r :: (free ++ used)) top) (hf : Gapped free) :
    Ascending (insertByStart r free) := by
  obtain ⟨hr, hp⟩ := positive_cons.mp h.positive
  obtain ⟨ha, -⟩ := List.pairwise_cons.mp h.apart
  exact hf.ascending.insert (fun s hs => hp s (List.mem_append_left _ hs)) hr
    fun s hs => ha s (List.mem_append_left _ hs)

theorem Tiling.coalesce (h : Tiling S (free ++ used) top) (hf : Ascending free) :
    Tiling S (coalesce free ++ used) top := by
  obtain ⟨hfp, hup⟩ := List.forall_mem_append.mp h.positive
  obtain ⟨hfw, huw⟩ := List.forall_mem_append.mp h.within
  obtain ⟨hfg, hug⟩ := List.forall_mem_append.mp h.grained
  obtain ⟨-, hua, hfu⟩ := List.pairwise_append.mp h.apart
  refine ⟨List.forall_mem_append.mpr ⟨coalesce_positive hfp, hup⟩, List.pairwise_append.mpr ⟨?_, hua, ?_⟩,
    List.forall_mem_append.mpr ⟨coalesce_within hfw, huw⟩, ?_,
    List.forall_mem_append.mpr ⟨coalesce_forall ?_ hfg, hug⟩, h.top_le⟩
  · exact (coalesce_gapped hf).ascending.imp fun hrs => .inl hrs
  · intro r hr s hs
    exact (coalesce_apart (hup s hs) hfp (fun t ht => (hfu t ht s hs).symm) r hr).symm
  · rw [total_append, coalesce_total, ← total_append, h.filled]
  · exact fun a b ha hb _ => ⟨Nat.dvd_add ha.1 hb.1, ha.2⟩

end Tilings

namespace Arena

def regions (A : Arena) : List Region := A.free ++ A.used

/-- The last free region, when it can be made to hold `n` places. -/
def Last (S : Setting) (n : Nat) (A : Arena) (r : Region) : Prop := A.top ≤ r.stop ∧ r.start + n ≤ S.limit

def Serves (S : Setting) (n : Nat) (A : Arena) (r : Region) : Prop := A.Last S n r ∨ n ≤ r.size

instance : Decidable (A.Last S n r) := inferInstanceAs (Decidable (_ ∧ _))

instance : Decidable (A.Serves S n r) := inferInstanceAs (Decidable (_ ∨ _))

/-- Takes `n` places out of the first free region that serves: of the last one exactly `n`, the top
moving with its end; of another one `n` when the rest is worth a region of its own; else all. -/
def acquire (S : Setting) (n : Nat) (A : Arena) : Option (Region × Arena) :=
  match A.free.find? fun r => A.Serves S n r with
  | some r =>
      let free := A.free.eraseP fun r => A.Serves S n r
      if A.Last S n r then some (⟨r.start, n⟩, ⟨free, ⟨r.start, n⟩ :: A.used, r.start + n⟩)
      else if A.regions.length < S.slots ∧ S.rest ≤ r.size - n then
        some (⟨r.start, n⟩,
          ⟨coalesce (insertByStart ⟨r.start + n, r.size - n⟩ free), ⟨r.start, n⟩ :: A.used, A.top⟩)
      else some (r, ⟨free, r :: A.used, A.top⟩)
  | none =>
      if A.regions.length < S.slots ∧ A.top + n ≤ S.limit then
        some (⟨A.top, n⟩, ⟨A.free, ⟨A.top, n⟩ :: A.used, A.top + n⟩)
      else none

/-- Gives back the region that starts at `a`. -/
def release (a : Nat) (A : Arena) : Option Arena :=
  (A.used.find? fun r => r.start = a).map fun r =>
    ⟨coalesce (insertByStart r A.free), A.used.eraseP fun r => r.start = a, A.top⟩

structure Valid (S : Setting) (A : Arena) : Prop where
  tiling : Tiling S A.regions A.top
  gapped : Gapped A.free
  slots : A.regions.length ≤ S.slots

theorem valid_empty (h : S.base ≤ S.limit) : Valid S ⟨[], [], S.base⟩ :=
  ⟨tiling_nil h, List.Pairwise.nil, Nat.zero_le _⟩

end Arena

open Arena

section Steps

theorem find_perm {p : Region → Bool} (h : l.find? p = some r) : l.Perm (r :: l.eraseP p) := by
  obtain ⟨hr, m, k, rfl, hm⟩ := List.find?_eq_some_iff_append.mp h
  have hm' : ∀ x ∈ m, ¬ p x = true := fun x hx => by simpa using hm x hx
  rw [List.eraseP_append_right _ hm', List.eraseP_cons_of_pos hr]
  exact List.perm_middle

theorem find_map_append {α : Type} {f : α → Region} {p : Region → Bool} {m k : List α} {b : α}
    (hm : ∀ a ∈ m, p (f a) = false) (hb : p (f b) = true) :
    ((m ++ b :: k).map f).find? p = some (f b) ∧ ((m ++ b :: k).map f).eraseP p = (m ++ k).map f := by
  have hm' : ∀ x ∈ m.map f, p x = false := List.forall_mem_map.mpr hm
  rw [List.map_append, List.map_cons, List.map_append]
  constructor
  · exact List.find?_eq_some_iff_append.mpr ⟨hb, _, _, rfl, fun x hx => by rw [hm' x hx]; rfl⟩
  · rw [List.eraseP_append_right _ fun x hx => by rw [hm' x hx]; exact Bool.false_ne_true,
      List.eraseP_cons_of_pos hb]

theorem find_map_none {α : Type} {f : α → Region} {p : Region → Bool} {m : List α}
    (hm : ∀ a ∈ m, p (f a) = false) : (m.map f).find? p = none := by
  refine List.find?_eq_none.mpr (List.forall_mem_map.mpr fun a ha => ?_)
  rw [hm a ha]
  exact Bool.false_ne_true

theorem insert_perm (r : Region) (free used : List Region) :
    (r :: (free ++ used)).Perm (insertByStart r free ++ used) :=
  ((insertByStart_perm r free).append_right used).symm

theorem Tiling.valid_insert (h : Tiling S (r :: (free ++ used)) top) (hf : Gapped free)
    (hs : (r :: (free ++ used)).length ≤ S.slots) :
    Valid S ⟨Regions.coalesce (insertByStart r free), used, top⟩ := by
  have hasc := h.ascending_insert hf
  refine ⟨(h.perm (insert_perm r free used)).coalesce hasc, coalesce_gapped hasc, ?_⟩
  have hlen := coalesce_length_le (insertByStart r free)
  have heq := (insert_perm r free used).length_eq
  simp only [Arena.regions, List.length_append, List.length_cons] at *
  omega

section Cases

variable (hf : A.free.find? (fun r => A.Serves S n r) = some r)
  (he : A.free.eraseP (fun r => A.Serves S n r) = free)
include hf he

theorem acquire_last (hl : A.Last S n r) :
    A.acquire S n = some (⟨r.start, n⟩, ⟨free, ⟨r.start, n⟩ :: A.used, r.start + n⟩) := by
  rw [acquire, hf]
  simp only [he]
  exact if_pos hl

theorem acquire_split (hl : ¬ A.Last S n r) (hs : A.regions.length < S.slots) (hr : S.rest ≤ r.size - n) :
    A.acquire S n = some (⟨r.start, n⟩,
      ⟨coalesce (insertByStart ⟨r.start + n, r.size - n⟩ free), ⟨r.start, n⟩ :: A.used, A.top⟩) := by
  rw [acquire, hf]
  simp only [he]
  rw [if_neg hl]
  exact if_pos ⟨hs, hr⟩

theorem acquire_whole (hl : ¬ A.Last S n r) (hs : ¬ (A.regions.length < S.slots ∧ S.rest ≤ r.size - n)) :
    A.acquire S n = some (r, ⟨free, r :: A.used, A.top⟩) := by
  rw [acquire, hf]
  simp only [he]
  rw [if_neg hl]
  exact if_neg hs

end Cases

theorem acquire_new (hf : A.free.find? (fun r => A.Serves S n r) = none) (hs : A.regions.length < S.slots)
    (hl : A.top + n ≤ S.limit) :
    A.acquire S n = some (⟨A.top, n⟩, ⟨A.free, ⟨A.top, n⟩ :: A.used, A.top + n⟩) := by
  rw [acquire, hf]
  exact if_pos ⟨hs, hl⟩

theorem acquire_none (hf : A.free.find? (fun r => A.Serves S n r) = none)
    (hs : ¬ (A.regions.length < S.slots ∧ A.top + n ≤ S.limit)) : A.acquire S n = none := by
  rw [acquire, hf]
  exact if_neg hs

theorem acquire_valid (hS : 0 < S.rest) (h : Valid S A) (hn : 0 < n) (hg : S.grain ∣ n) {B : Arena}
    (ha : A.acquire S n = some (r, B)) : Valid S B ∧ B.used = r :: A.used ∧ n ≤ r.size := by
  obtain ⟨ht, hgap, hs⟩ := h
  rw [acquire] at ha
  cases hfind : A.free.find? fun r => A.Serves S n r with
  | some s =>
      rw [hfind] at ha
      have hperm : A.regions.Perm (s :: (A.free.eraseP (fun r => A.Serves S n r) ++ A.used)) :=
        (find_perm hfind).append_right A.used
      have hserves : A.Serves S n s := by simpa using List.find?_some hfind
      have hgap' : Gapped (A.free.eraseP fun r => A.Serves S n r) := hgap.sublist List.eraseP_sublist
      have ht' := ht.perm hperm
      have hmid : ∀ t : Region, (t :: (A.free.eraseP (fun r => A.Serves S n r) ++ A.used)).Perm
          (A.free.eraseP (fun r => A.Serves S n r) ++ t :: A.used) := fun t => List.perm_middle.symm
      have hlen := hperm.length_eq
      simp only at ha
      split at ha
      next hlast =>
        cases ha
        refine ⟨⟨(ht'.resize hlast.1 hn hg hlast.2).perm (hmid _), hgap', ?_⟩, rfl, Nat.le_refl n⟩
        rw [Arena.regions, ← (hmid _).length_eq]
        exact hlen ▸ hs
      next hlast =>
        have hle : n ≤ s.size := hserves.resolve_left hlast
        split at ha
        next hsplit =>
          cases ha
          have hsp := ht'.split hn (by omega) hg
          have hswap := hsp.perm ((List.Perm.swap _ _ _).trans ((hmid _).cons _))
          refine ⟨hswap.valid_insert hgap' ?_, rfl, Nat.le_refl n⟩
          have hslots := hsplit.1
          simp only [List.length_cons, List.length_append] at hlen ⊢
          omega
        next =>
          cases ha
          refine ⟨⟨ht'.perm (hmid _), hgap', ?_⟩, rfl, hle⟩
          rw [Arena.regions, ← (hmid _).length_eq]
          exact hlen ▸ hs
  | none =>
      rw [hfind] at ha
      simp only at ha
      split at ha
      next hfree =>
        cases ha
        refine ⟨⟨(ht.extend hn hg hfree.2).perm List.perm_middle.symm, hgap, ?_⟩, rfl, Nat.le_refl n⟩
        have hslots := hfree.1
        simp only [Arena.regions, List.length_append, List.length_cons] at hslots ⊢
        omega
      next => cases ha

theorem release_valid (h : Valid S A) {a : Nat} {B : Arena} (ha : A.release a = some B) :
    Valid S B ∧ B.used = A.used.eraseP fun r => r.start = a := by
  obtain ⟨ht, hgap, hs⟩ := h
  rw [release, Option.map_eq_some_iff] at ha
  obtain ⟨r, hfind, rfl⟩ := ha
  have hperm : A.regions.Perm (r :: (A.free ++ A.used.eraseP fun r => r.start = a)) :=
    ((find_perm hfind).append_left A.free).trans List.perm_middle
  refine ⟨(ht.perm hperm).valid_insert hgap ?_, rfl⟩
  rw [← hperm.length_eq]
  exact hs

theorem release_isSome_iff {a : Nat} : (A.release a).isSome ↔ ∃ r ∈ A.used, r.start = a := by
  simp [release]

theorem acquire_of_unused (h : Valid S A) (hu : A.used = []) (hlim : S.base + n ≤ S.limit)
    (hslots : 0 < S.slots) : ∃ B, A.acquire S n = some (⟨S.base, n⟩, B) := by
  obtain ⟨ht, hgap, -⟩ := h
  have hreg : A.regions = A.free := by rw [Arena.regions, hu, List.append_nil]
  rw [hreg] at ht
  rcases hgap.eq_of_total ht.within ht.filled with ⟨hnil, htop⟩ | hone
  · refine ⟨⟨A.free, ⟨A.top, n⟩ :: A.used, A.top + n⟩, ?_⟩
    simp [acquire, hreg, hnil, ← htop, hslots, hlim]
  · have hpos := ht.positive ⟨S.base, A.top - S.base⟩ (by simp [hone])
    have hlast : A.Last S n ⟨S.base, A.top - S.base⟩ := by
      simp only [Last, Region.stop] at *
      omega
    refine ⟨⟨[], ⟨S.base, n⟩ :: A.used, S.base + n⟩, ?_⟩
    simp [acquire, hone, Serves, hlast]

end Steps

end Orion68.FirstFit
