import Orion68.Libc.MallocRequests
import Orion68.Lib.Runs
import Mathlib.Data.List.Forall2
import Mathlib.Data.List.Pairwise

namespace Orion68.MallocRuns

open Chains Regions FirstFit Memory Runs Malloc MallocLists MallocRefinement MallocRequests

/-- What a caller of `malloc_init` has to see to: the blocks lie below the limit, and the alignment is
a power of two. -/
structure Proper (s : Settings) : Prop where
  blocks : 0 < s.heapMaxBlocks.toNat
  thresh : 0 < s.heapSplitThresh.toNat
  alignment : ∃ k, s.heapAlignment.toNat = 2 ^ k
  room : s.heap.toNat + 16 + s.heapMaxBlocks.toNat * 12 ≤ s.heapLimit.toNat

def first (s : Settings) : Nat := s.heap.toNat + 16 + s.heapMaxBlocks.toNat * 12

/-- What the program does with the heap; it may free any pointer. -/
inductive Call
  | malloc (num : UInt32)
  | calloc (num size : UInt32)
  | free (ptr : UInt32)
  | store (ptr : UInt32) (i : Nat) (v : UInt8)

/-- The allocator, the memory, and the blocks that the program holds with what it knows to be in
them, the last one it got first. -/
structure Session where
  heap : Heap
  mem : Ram
  live : List (UInt32 × List UInt8)

def start (s : Settings) (block : BlockPtr → Block) (mem : Ram) : Session := ⟨mallocInit s block, mem, []⟩

def step (s : Settings) : Call → Session → Option Session
  | .malloc num, σ => (malloc s num σ.heap).map fun (p, h) =>
      ⟨h, σ.mem, if p = 0 then σ.live else (p, bytes σ.mem p num.toNat) :: σ.live⟩
  | .calloc num size, σ => (calloc s num size σ.heap σ.mem).map fun (p, h, m) =>
      ⟨h, m, if p = 0 then σ.live else (p, List.replicate (num.toNat * size.toNat) 0) :: σ.live⟩
  | .free ptr, σ => (free s ptr σ.heap).map fun (found, h) =>
      ⟨h, σ.mem, if found then σ.live.eraseP fun e => e.1 = ptr else σ.live⟩
  | .store ptr i v, σ =>
      some ⟨σ.heap, Function.update σ.mem (ptr + UInt32.ofNat i) v,
        σ.live.map fun e => if e.1 = ptr then (e.1, e.2.set i v) else e⟩

/-- A request for `n` bytes that no sum of the allocator overflows on. One for no byte is left out: the address
that it gets may be given out again. -/
def Sensible (s : Settings) (n : Nat) : Prop := 0 < n ∧ n + s.heapAlignment.toNat + s.heapLimit.toNat ≤ 2 ^ 32

/-- The program stores only into blocks that it holds. -/
def Allowed (s : Settings) : Call → Session → Prop
  | .malloc num, _ => Sensible s num.toNat
  | .calloc num size, _ => Sensible s (num.toNat * size.toNat)
  | .free _, _ => True
  | .store ptr i _, σ => ∃ e ∈ σ.live, e.1 = ptr ∧ i < e.2.length

instance (s : Settings) (c : Call) (σ : Session) : Decidable (Allowed s c σ) :=
  match c with
  | .malloc _ => inferInstanceAs (Decidable (_ ∧ _))
  | .calloc _ _ => inferInstanceAs (Decidable (_ ∧ _))
  | .free _ => inferInstanceAs (Decidable True)
  | .store ptr i _ => inferInstanceAs (Decidable (∃ e ∈ σ.live, e.1 = ptr ∧ i < e.2.length))

def span (e : UInt32 × List UInt8) : Span := ⟨e.1, e.2.length⟩

/-- The region that stands behind a block of the program. -/
def Backs (e : UInt32 × List UInt8) (r : Region) : Prop := e.1.toNat = r.start ∧ e.2.length ≤ r.size

/-- The blocks of the program are the used regions, in order, and hold what it put there. -/
structure Sound (s : Settings) (σ : Session) (A : Arena) : Prop where
  represents : Represents s σ.heap A
  valid : A.Valid (setting s)
  backs : List.Forall₂ Backs σ.live A.used
  holds : ∀ e ∈ σ.live, bytes σ.mem e.1 e.2.length = e.2

variable {s : Settings} {σ τ : Session} {A B : Arena}

section Places

theorem base_eq (hs : Proper s) : (setting s).base = first s := by
  have hlim := s.heapLimit.toNat_lt
  have hroom := hs.room
  have hmul : (s.heapMaxBlocks * sizeofBlock).toNat = s.heapMaxBlocks.toNat * 12 := by
    rw [UInt32.toNat_mul]
    exact Nat.mod_eq_of_lt (by change s.heapMaxBlocks.toNat * 12 < 2 ^ 32; omega)
  have hadd : (s.heap + sizeofHeap).toNat = s.heap.toNat + 16 := by
    rw [UInt32.toNat_add]
    exact Nat.mod_eq_of_lt (by change s.heap.toNat + 16 < 2 ^ 32; omega)
  rw [setting, UInt32.toNat_add, hmul, hadd]
  exact Nat.mod_eq_of_lt (by omega)

theorem mem_span_iff {a x : UInt32} {n : Nat} (h : a.toNat + n ≤ 2 ^ 32) :
    x ∈ Span.mk a n ↔ a.toNat ≤ x.toNat ∧ x.toNat < a.toNat + n := by
  have := x.toNat_lt
  have := a.toNat_lt
  change (x - a).toNat < n ↔ _
  rw [UInt32.toNat_sub]
  omega

theorem Backs.stop_le {e : UInt32 × List UInt8} {r : Region} (h : Backs e r) (hr : r.stop ≤ s.heapLimit.toNat) :
    e.1.toNat + e.2.length ≤ s.heapLimit.toNat := by
  have := h.1
  have := h.2
  simp only [Region.stop] at hr
  omega

theorem Backs.disjoint {e f : UInt32 × List UInt8} {r t : Region} (he : Backs e r) (hf : Backs f t)
    (hr : r.stop ≤ s.heapLimit.toNat) (ht : t.stop ≤ s.heapLimit.toNat) (hap : r.Apart t) :
    (span e).Disjoint (span f) := by
  have hlim := s.heapLimit.toNat_lt
  have hes := he.stop_le hr
  have hfs := hf.stop_le ht
  intro x hx hxf
  rw [span, mem_span_iff (by omega)] at hx hxf
  have := he.1
  have := he.2
  have := hf.1
  have := hf.2
  simp only [Region.Apart, Region.stop] at *
  omega

theorem used_within (hA : A.Valid (setting s)) {r : Region} (hr : r ∈ A.used) :
    (setting s).base ≤ r.start ∧ r.stop ≤ s.heapLimit.toNat := by
  have hw := hA.tiling.within r (List.mem_append_right _ hr)
  exact ⟨hw.1, Nat.le_trans hw.2 hA.tiling.top_le⟩

theorem forall₂_mem {α β : Type} {R : α → β → Prop} {l : List α} {m : List β} (h : List.Forall₂ R l m) {a : α}
    (ha : a ∈ l) : ∃ b ∈ m, R a b := by
  induction h with
  | nil => simp at ha
  | cons hab _ ih =>
      rcases List.mem_cons.mp ha with rfl | ha
      · exact ⟨_, by simp, hab⟩
      · obtain ⟨b, hb, hR⟩ := ih ha
        exact ⟨b, List.mem_cons_of_mem _ hb, hR⟩

theorem forall₂_pairwise {α β : Type} {R : α → β → Prop} {P : α → α → Prop} {Q : β → β → Prop} {l : List α}
    {m : List β} (h : List.Forall₂ R l m) (hm : m.Pairwise Q)
    (hPQ : ∀ a a' b b', b ∈ m → b' ∈ m → R a b → R a' b' → Q b b' → P a a') : l.Pairwise P := by
  induction h with
  | nil => exact List.Pairwise.nil
  | cons hab hlm ih =>
      obtain ⟨hb, hm⟩ := List.pairwise_cons.mp hm
      refine List.pairwise_cons.mpr ⟨fun a' ha' => ?_, ih hm fun a a' b b' hbm hbm' =>
        hPQ a a' b b' (List.mem_cons_of_mem _ hbm) (List.mem_cons_of_mem _ hbm')⟩
      obtain ⟨b', hb', hR⟩ := forall₂_mem hlm ha'
      exact hPQ _ a' _ b' (by simp) (List.mem_cons_of_mem _ hb') hab hR (hb b' hb')

theorem forall₂_eraseP {α β : Type} {R : α → β → Prop} {p : α → Bool} {q : β → Bool} {l : List α} {m : List β}
    (h : List.Forall₂ R l m) (hpq : ∀ a b, R a b → p a = q b) : List.Forall₂ R (l.eraseP p) (m.eraseP q) := by
  induction h with
  | nil => exact List.Forall₂.nil
  | @cons a b l m hab hlm ih =>
      cases hp : p a with
      | true =>
          rw [List.eraseP_cons_of_pos hp, List.eraseP_cons_of_pos ((hpq a b hab).symm.trans hp)]
          exact hlm
      | false =>
          have hq : q b = false := (hpq a b hab).symm.trans hp
          rw [List.eraseP_cons_of_neg (by rw [hp]; exact Bool.false_ne_true),
            List.eraseP_cons_of_neg (by rw [hq]; exact Bool.false_ne_true)]
          exact List.Forall₂.cons hab ih

theorem separate_of_backs (hA : A.Valid (setting s)) {l : List (UInt32 × List UInt8)}
    (hb : List.Forall₂ Backs l A.used) : l.Pairwise fun e f => (span e).Disjoint (span f) :=
  forall₂_pairwise hb (List.pairwise_append.mp hA.tiling.apart).2.1
    fun _ _ _ _ hr ht he hf => he.disjoint hf (used_within hA hr).2 (used_within hA ht).2

theorem Sound.injective (h : Sound s σ A) {e f : UInt32 × List UInt8} (he : e ∈ σ.live) (hf : f ∈ σ.live)
    (hef : e.1 = f.1) : e = f := by
  have hne : σ.live.Pairwise fun e f => e.1 = f.1 → e = f := by
    refine forall₂_pairwise h.backs (List.pairwise_append.mp h.valid.tiling.apart).2.1 ?_
    intro a a' b b' hb hb' hab hab' hap ha
    have hpos := h.valid.tiling.positive b (List.mem_append_right _ hb)
    have hpos' := h.valid.tiling.positive b' (List.mem_append_right _ hb')
    have hstart : b.start = b'.start := by rw [← hab.1, ← hab'.1, ha]
    simp only [Region.Apart, Region.stop] at hap
    omega
  have hsymm : Std.Symm fun e f : UInt32 × List UInt8 => e.1 = f.1 → e = f :=
    ⟨fun _ _ hR hba => (hR hba.symm).symm⟩
  exact hne.forall_of_forall (fun _ _ _ => rfl) he hf hef

theorem Sound.length_le (h : Sound s σ A) {e : UInt32 × List UInt8} (he : e ∈ σ.live) :
    e.2.length ≤ 2 ^ 32 := by
  obtain ⟨r, hr, hb⟩ := forall₂_mem h.backs he
  have := hb.stop_le (used_within h.valid hr).2
  have := s.heapLimit.toNat_lt
  omega

end Places

section Steps

variable {r : Region} {h' : Heap} {m' : Ram} {p num : UInt32} {n : Nat} {d : List UInt8}

theorem roundUp_sensible (hs : Proper s) (hn : Sensible s num.toNat) :
    0 < (s.roundUp num).toNat ∧ (setting s).grain ∣ (s.roundUp num).toNat ∧ num.toNat ≤ (s.roundUp num).toNat ∧
      s.heapLimit.toNat + (s.roundUp num).toNat < 2 ^ 32 := by
  obtain ⟨k, hk⟩ := hs.alignment
  obtain ⟨hpos, hsum⟩ := hn
  obtain ⟨hdvd, hle, hlt⟩ := roundUp_spec hk (by omega : num.toNat + s.heapAlignment.toNat ≤ 2 ^ 32)
  exact ⟨Nat.lt_of_lt_of_le hpos hle, hdvd, hle, by omega⟩

theorem Sound.grant (h : Sound s σ A) (hB : B.Valid (setting s)) (hused : B.used = r :: A.used)
    (hrep : Represents s h' B) (hback : Backs (p, d) r) (hold : bytes m' p d.length = d)
    (hm : ∀ x, x ∉ span (p, d) → m' x = σ.mem x) : Sound s ⟨h', m', (p, d) :: σ.live⟩ B := by
  have hbacks : List.Forall₂ Backs ((p, d) :: σ.live) B.used := hused ▸ List.Forall₂.cons hback h.backs
  have hsep := (List.pairwise_cons.mp (separate_of_backs hB hbacks)).1
  refine ⟨hrep, hB, hbacks, List.forall_mem_cons.mpr ⟨hold, fun e he => ?_⟩⟩
  have hkeep : bytes m' e.1 e.2.length = bytes σ.mem e.1 e.2.length :=
    bytes_congr (h.length_le he) fun x hx => hm x fun hxp => hsep e he x hxp hx
  exact hkeep.trans (h.holds e he)

theorem allocBlock_sound (hs : Proper s) (h : Sound s σ A) (hn : Sensible s num.toNat) :
    (∃ r B b h', allocBlock s num σ.heap = some (some b, h') ∧ Represents s h' B ∧ B.Valid (setting s) ∧
      B.used = r :: A.used ∧ region h' b = r ∧ num.toNat ≤ r.size ∧ h'.addr b ≠ 0) ∨
      allocBlock s num σ.heap = some (none, σ.heap) := by
  obtain ⟨hpos, hdvd, hle, hlim⟩ := roundUp_sensible hs hn
  rcases allocBlock_refines h.represents h.valid hlim with ⟨r, B, b, h', hacq, halloc, hreg, hrep⟩ | ⟨-, halloc⟩
  · left
    obtain ⟨hB, hused, hsize⟩ := acquire_valid hs.thresh h.valid hpos hdvd hacq
    refine ⟨r, B, b, h', halloc, hrep, hB, hused, hreg, Nat.le_trans hle hsize, fun hzero => ?_⟩
    have hbase := (used_within hB (hused ▸ List.mem_cons_self)).1
    rw [base_eq hs, ← hreg, region, hzero, first] at hbase
    exact absurd hbase (by simp)
  · exact .inr halloc

theorem malloc_sound (hs : Proper s) (h : Sound s σ A) (hn : Sensible s num.toNat) :
    ∃ τ, step s (.malloc num) σ = some τ ∧ ∃ B, Sound s τ B := by
  rcases allocBlock_sound hs h hn with ⟨r, B, b, h', halloc, hrep, hB, hused, hreg, hsize, hne⟩ | halloc
  · have hback : Backs (h'.addr b, bytes σ.mem (h'.addr b) num.toNat) r :=
      ⟨congrArg Region.start hreg, by rw [length_bytes]; exact hsize⟩
    refine ⟨_, ?_, B, h.grant hB hused hrep hback (by rw [length_bytes]) fun _ _ => rfl⟩
    simp [step, malloc, halloc, hne]
  · refine ⟨σ, ?_, A, h⟩
    simp [step, malloc, halloc]

theorem calloc_sound (hs : Proper s) (h : Sound s σ A) {size : UInt32} (hn : Sensible s (num.toNat * size.toNat)) :
    ∃ τ, step s (.calloc num size) σ = some τ ∧ ∃ B, Sound s τ B := by
  obtain ⟨k, hk⟩ := hs.alignment
  have hmul : (num * size).toNat = num.toNat * size.toNat := by
    rw [UInt32.toNat_mul]
    have := hn.2
    have := Nat.two_pow_pos k
    exact Nat.mod_eq_of_lt (by omega)
  rcases allocBlock_sound hs h (hmul ▸ hn) with ⟨r, B, b, h', halloc, hrep, hB, hused, hreg, hsize, hne⟩ | halloc
  · have hlen : (List.replicate (num * size).toNat (0 : UInt8)).length = (num * size).toNat := List.length_replicate
    have hback : Backs (h'.addr b, List.replicate (num * size).toNat 0) r :=
      ⟨congrArg Region.start hreg, by rw [hlen]; exact hsize⟩
    have hclear : bytes (memclear (h'.addr b) (num * size) σ.mem) (h'.addr b)
        (List.replicate (num * size).toNat (0 : UInt8)).length = List.replicate (num * size).toNat 0 := by
      rw [memclear_eq]
      exact bytes_write _ (by rw [hlen]; exact Nat.le_of_lt (num * size).toNat_lt)
    refine ⟨_, ?_, B, h.grant hB hused hrep hback hclear fun x hx => ?_⟩
    · rw [step, calloc]
      simp only [halloc, Option.map_some, if_neg hne, hmul]
    · rw [memclear_eq]
      exact write_of_notMem σ.mem hx
  · refine ⟨σ, ?_, A, h⟩
    simp [step, calloc, halloc]

theorem free_sound (h : Sound s σ A) (ptr : UInt32) :
    (∃ e ∈ σ.live, e.1 = ptr) ∧ (∃ h' B, free s ptr σ.heap = some (true, h') ∧
      Sound s ⟨h', σ.mem, σ.live.eraseP fun e => e.1 = ptr⟩ B) ∨
      (¬ ∃ e ∈ σ.live, e.1 = ptr) ∧ free s ptr σ.heap = some (false, σ.heap) := by
  have hiff : (∃ e ∈ σ.live, e.1 = ptr) ↔ (A.release ptr.toNat).isSome := by
    rw [release_isSome_iff]
    constructor
    · rintro ⟨e, he, rfl⟩
      obtain ⟨r, hr, hb⟩ := forall₂_mem h.backs he
      exact ⟨r, hr, hb.1.symm⟩
    · rintro ⟨r, hr, hstart⟩
      obtain ⟨e, he, hb⟩ := forall₂_mem h.backs.flip hr
      exact ⟨e, he, UInt32.toNat_inj.mp (hb.1.trans hstart)⟩
  rcases free_refines h.represents h.valid ptr with ⟨B, h', hrel, hfree, hrep⟩ | ⟨hrel, hfree⟩
  · left
    obtain ⟨hB, hused⟩ := release_valid h.valid hrel
    refine ⟨hiff.mpr (by rw [hrel]; rfl), h', B, hfree, hrep, hB, ?_, fun e he => h.holds e (List.mem_of_mem_eraseP he)⟩
    rw [hused]
    refine forall₂_eraseP h.backs fun e r hb => ?_
    rw [decide_eq_decide, ← hb.1, UInt32.toNat_inj]
  · right
    exact ⟨fun he => by simpa [hrel] using hiff.mp he, hfree⟩

theorem store_sound (h : Sound s σ A) {i : Nat} {v : UInt8} (ha : Allowed s (.store p i v) σ) :
    ∃ τ, step s (.store p i v) σ = some τ ∧ Sound s τ A := by
  obtain ⟨f, hf, rfl, hi⟩ := ha
  refine ⟨_, rfl, h.represents, h.valid, ?_, List.forall_mem_map.mpr fun e he => ?_⟩
  · rw [List.forall₂_map_left_iff]
    refine h.backs.imp fun e r hb => ?_
    split
    · exact ⟨hb.1, by rw [List.length_set]; exact hb.2⟩
    · exact hb
  · have hlen := h.length_le he
    by_cases hef : e.1 = f.1
    · obtain rfl := h.injective he hf hef
      rw [if_pos rfl, List.length_set, bytes_update hi hlen, h.holds e he]
    · rw [if_neg hef]
      have hne : f ≠ e := fun hfe => hef (congrArg Prod.fst hfe.symm)
      have hsymm : Std.Symm fun e f : UInt32 × List UInt8 => (span e).Disjoint (span f) :=
        ⟨fun _ _ => Span.disjoint_comm.mp⟩
      have hsep := (separate_of_backs h.valid h.backs).forall hf he hne
      refine (bytes_congr hlen fun x hx => Function.update_of_ne ?_ _ _).trans (h.holds e he)
      rintro rfl
      exact hsep _ (offset_mem hi (h.length_le hf)) hx

theorem step_sound (hs : Proper s) (h : Sound s σ A) {c : Call} (ha : Allowed s c σ) :
    ∃ τ, step s c σ = some τ ∧ ∃ B, Sound s τ B := by
  cases c with
  | malloc num => exact malloc_sound hs h ha
  | calloc num size => exact calloc_sound hs h ha
  | free ptr =>
      rcases free_sound h ptr with ⟨-, h', B, hfree, hB⟩ | ⟨-, hfree⟩
      · exact ⟨_, by rw [step, hfree]; rfl, B, hB⟩
      · exact ⟨σ, by rw [step, hfree]; rfl, A, h⟩
  | store ptr i v =>
      obtain ⟨τ, hτ, hA⟩ := store_sound h ha
      exact ⟨τ, hτ, A, hA⟩

end Steps

section Shell

/-- What `main` of the shell calls `malloc_init` with. -/
def shellSettings : Settings := ⟨0x94000, 0xb4000, 64, 16, 4⟩

theorem shellSettings_proper : Proper shellSettings := ⟨by decide, by decide, ⟨2, rfl⟩, by decide⟩

/-- A heap in memory that nothing was stored in yet. -/
def shellStart : Session := start shellSettings (fun _ => ⟨0, none, 0⟩) fun _ => 0xff

def shellCalls : List Call :=
  [.malloc 10, .store 0x94310 3 7, .calloc 3 4, .free 0x94310, .malloc 5, .free 0x94400]

end Shell

section Runs

variable {block : BlockPtr → Block} {mem : Ram} {calls : List Call}

theorem start_sound (hs : Proper s) (block : BlockPtr → Block) (mem : Ram) :
    ∃ A, Sound s (start s block mem) A := by
  have hroom := hs.room
  refine ⟨_, mallocInit_represents hs.blocks block, Arena.valid_empty ?_, List.Forall₂.nil, List.forall_mem_nil _⟩
  rw [base_eq hs, first]
  exact hroom

theorem run_sound (hs : Proper s) (ha : Along (step s) (Allowed s) calls (start s block mem)) :
    Throughout (step s) (fun σ => ∃ A, Sound s σ A) calls (start s block mem) :=
  throughout_of_along (fun _ h => h) (fun _ _ ⟨_, h⟩ hc => step_sound hs h hc) (start_sound hs block mem) ha

/-- What the program can rely on for the blocks it holds. -/
structure Safe (s : Settings) (σ : Session) : Prop where
  separate : σ.live.Pairwise fun e f => (span e).Disjoint (span f)
  within : ∀ e ∈ σ.live, first s ≤ e.1.toNat ∧ e.1.toNat + e.2.length ≤ s.heapLimit.toNat
  aligned : ∀ e ∈ σ.live, s.heapAlignment.toNat ∣ e.1.toNat - first s
  holds : ∀ e ∈ σ.live, bytes σ.mem e.1 e.2.length = e.2

theorem Sound.safe (hs : Proper s) (h : Sound s σ A) : Safe s σ where
  separate := separate_of_backs h.valid h.backs
  within e he := by
    obtain ⟨r, hr, hb⟩ := forall₂_mem h.backs he
    have hw := used_within h.valid hr
    exact ⟨by rw [hb.1, ← base_eq hs]; exact hw.1, hb.stop_le hw.2⟩
  aligned e he := by
    obtain ⟨r, hr, hb⟩ := forall₂_mem h.backs he
    rw [hb.1, ← base_eq hs]
    exact (h.valid.tiling.grained r (List.mem_append_right _ hr)).2
  holds := h.holds

/-- Whatever a program does with the heap, every call returns, and the blocks that the program holds
stay apart and keep what it put there. -/
theorem run_safe (hs : Proper s) (ha : Along (step s) (Allowed s) calls (start s block mem)) :
    Throughout (step s) (Safe s) calls (start s block mem) :=
  throughout_of_along (I := fun σ => ∃ A, Sound s σ A) (fun _ ⟨_, h⟩ => h.safe hs)
    (fun _ _ ⟨_, h⟩ hc => step_sound hs h hc) (start_sound hs block mem) ha

theorem run_safe_shell : Throughout (step shellSettings) (Safe shellSettings) shellCalls shellStart :=
  run_safe shellSettings_proper (by decide)

/-- `free` tells the blocks that the program holds from all other pointers, and leaves the heap as it is
when it is given another one. -/
theorem free_answers (hs : Proper s) (ha : Along (step s) (Allowed s) calls (start s block mem))
    (hr : run (step s) calls (start s block mem) = some σ) (ptr : UInt32) :
    ∃ h', free s ptr σ.heap = some (decide (∃ e ∈ σ.live, e.1 = ptr), h') ∧
      ((¬ ∃ e ∈ σ.live, e.1 = ptr) → h' = σ.heap) := by
  obtain ⟨A, h⟩ := (run_sound hs ha).last hr
  rcases free_sound h ptr with ⟨he, h', B, hfree, -⟩ | ⟨he, hfree⟩
  · exact ⟨h', by rw [hfree, decide_eq_true he], fun hn => absurd he hn⟩
  · exact ⟨σ.heap, by rw [hfree, decide_eq_false he], fun _ => rfl⟩

theorem free_answers_shell : ∃ σ, run (step shellSettings) shellCalls shellStart = some σ ∧
    ∃ h', free shellSettings 0x9431c σ.heap = some (decide (∃ e ∈ σ.live, e.1 = 0x9431c), h') ∧
      ((¬ ∃ e ∈ σ.live, e.1 = 0x9431c) → h' = σ.heap) :=
  ⟨_, (Option.some_get (by decide)).symm,
    free_answers shellSettings_proper (by decide) (Option.some_get (by decide)).symm 0x9431c⟩

/-- No block of the allocator is ever lost, and the used ones are those of the program. -/
theorem check_holds (hs : Proper s) (ha : Along (step s) (Allowed s) calls (start s block mem))
    (hr : run (step s) calls (start s block mem) = some σ) :
    mallocCheck s σ.heap = some true ∧ mallocNumUsed s σ.heap = some σ.live.length := by
  obtain ⟨A, ⟨F, U, R, hl, rfl⟩, -, hbacks, -⟩ := (run_sound hs ha).last hr
  have hfree : mallocNumFree s σ.heap = some F.length :=
    count_eq hl.free (hl.length_lt (List.sublist_append_left F _))
  have hused : mallocNumUsed s σ.heap = some U.length :=
    count_eq hl.used (hl.length_lt ((List.sublist_append_left U R).trans (List.sublist_append_right F _)))
  have hfresh : mallocNumFresh s σ.heap = some R.length :=
    count_eq hl.fresh (hl.length_lt ((List.sublist_append_right U R).trans (List.sublist_append_right F _)))
  have hlive : σ.live.length = U.length := by simpa [arena] using hbacks.length_eq
  have hlen := hl.length_eq
  simp only [List.length_append] at hlen
  rw [mallocCheck, hfree, hused, hfresh, hlive]
  simp only [Option.bind_some, Option.map_some, Option.some.injEq, decide_eq_true_eq, and_true]
  omega

theorem check_holds_shell : ∃ σ, run (step shellSettings) shellCalls shellStart = some σ ∧
    mallocCheck shellSettings σ.heap = some true ∧ mallocNumUsed shellSettings σ.heap = some σ.live.length :=
  ⟨_, (Option.some_get (by decide)).symm,
    check_holds shellSettings_proper (by decide) (Option.some_get (by decide)).symm⟩

/-- When the program has given back everything, the heap is whole again: what fits in it is met, at its
start. -/
theorem malloc_when_idle (hs : Proper s) (ha : Along (step s) (Allowed s) calls (start s block mem))
    (hr : run (step s) calls (start s block mem) = some σ) (hidle : σ.live = []) {num : UInt32}
    (hn : Sensible s num.toNat) (hfit : first s + (s.roundUp num).toNat ≤ s.heapLimit.toNat) :
    ∃ h', malloc s num σ.heap = some (UInt32.ofNat (first s), h') := by
  obtain ⟨A, h⟩ := (run_sound hs ha).last hr
  obtain ⟨-, -, -, hlim⟩ := roundUp_sensible hs hn
  have hbacks := h.backs
  rw [hidle, List.forall₂_nil_left_iff] at hbacks
  obtain ⟨B, hacq⟩ := acquire_of_unused h.valid hbacks (n := (s.roundUp num).toNat)
    (by rw [base_eq hs]; exact hfit) hs.blocks
  rcases allocBlock_refines h.represents h.valid hlim with ⟨r, B', b, h', hacq', halloc, hreg, -⟩ | ⟨hacq', -⟩
  · obtain ⟨rfl, -⟩ : r = _ ∧ B' = _ := by simpa using hacq'.symm.trans hacq
    refine ⟨h', ?_⟩
    have haddr : (h'.addr b).toNat = first s := by
      rw [← base_eq hs]
      exact congrArg Region.start hreg
    rw [malloc, halloc, ← haddr, UInt32.ofNat_toNat]
    rfl
  · rw [hacq'] at hacq
    cases hacq

theorem malloc_when_idle_shell :
    ∃ σ, run (step shellSettings) (shellCalls ++ [.free 0x94310, .free 0x9431c]) shellStart = some σ ∧
      ∃ h', malloc shellSettings 0x1fcf0 σ.heap = some (UInt32.ofNat (first shellSettings), h') :=
  ⟨_, (Option.some_get (by decide)).symm,
    malloc_when_idle shellSettings_proper (by decide) (Option.some_get (by decide)).symm (by decide)
      ⟨by decide, by decide⟩ (by decide)⟩

end Runs

end Orion68.MallocRuns
