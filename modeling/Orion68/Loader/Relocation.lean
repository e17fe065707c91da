import Orion68.Loader.LoaderPic
import Mathlib.Data.Nat.ModEq
import Mathlib.Data.Nat.Prime.Basic
import Mathlib.Tactic.NormNum

namespace Orion68.LoaderRelocation

open Memory FatFs LoaderPic

/-- `base` has been added once to each word of `w`, and no other byte has changed. -/
def Relocated (w : List UInt32) (base : UInt32) (m m' : Ram) : Prop :=
  (∀ a ∈ w, load32 m' a = load32 m a + base) ∧ ∀ x, (∀ a ∈ w, x ∉ Span.mk a 4) → m' x = m x

section Base

theorem slotsBaseAddr_toNat : ∀ i : Slot, (slotsBaseAddr i).toNat = 0x2000 * (73 + 32 * i.val) := by
  decide

theorem count_mul_base_iff (i : Slot) (k : Nat) :
    UInt32.ofNat k * slotsBaseAddr i = slotsBaseAddr i ↔ k % 2 ^ 19 = 1 := by
  have hbase := slotsBaseAddr_toNat i
  have hodd : Nat.Coprime (2 ^ 19) (73 + 32 * i.val) := by
    apply Nat.Coprime.pow_left
    exact Nat.coprime_two_left.mpr ⟨36 + 16 * i.val, by omega⟩
  rw [← UInt32.toNat_inj, UInt32.toNat_mul, UInt32.toNat_ofNat', Nat.mod_mul_mod, hbase]
  have hlt : 0x2000 * (73 + 32 * i.val) < 2 ^ 32 := by have := i.isLt; omega
  have hcancel : k * (0x2000 * (73 + 32 * i.val)) % 2 ^ 32 = 0x2000 * (73 + 32 * i.val) ↔
      k * (73 + 32 * i.val) % 2 ^ 19 = 1 * (73 + 32 * i.val) % 2 ^ 19 := by
    rw [Nat.mul_left_comm]
    generalize k * (73 + 32 * i.val) = p
    omega
  rw [hcancel]
  constructor
  · intro h
    exact Nat.ModEq.cancel_right_of_coprime hodd h
  · intro h
    exact Nat.ModEq.mul_right (73 + 32 * i.val) (show k ≡ 1 [MOD 2 ^ 19] from h)

end Base

section Halves

def half (m : Ram) (a : UInt32) : Nat := 256 * (m a).toNat + (m (a + 1)).toNat

theorem half_lt (m : Ram) (a : UInt32) : half m a < 2 ^ 16 := by
  have := (m a).toNat_lt
  have := (m (a + 1)).toNat_lt
  rw [half]
  omega

theorem load32_toNat (m : Ram) (a : UInt32) : (load32 m a).toNat = 2 ^ 16 * half m a + half m (a + 2) := by
  have h3 : a + 2 + 1 = a + 3 := by rw [UInt32.add_assoc]; rfl
  rw [load32, word32_toNat, half, half, h3]

variable {m m' : Ram} {a t : UInt32}

theorem half_add_base (i : Slot) (h : load32 m' a = load32 m a + slotsBaseAddr i) :
    half m' a % 2 ^ 13 ≠ half m a % 2 ^ 13 := by
  have hn := congrArg UInt32.toNat h
  rw [UInt32.toNat_add, load32_toNat, load32_toNat, slotsBaseAddr_toNat] at hn
  have := half_lt m a
  have := half_lt m' a
  have := half_lt m (a + 2)
  have := half_lt m' (a + 2)
  have := i.isLt
  omega

theorem half_add_multiples (i : Slot) {k k' : Nat}
    (h : load32 m' t + UInt32.ofNat k' * slotsBaseAddr i = load32 m t + UInt32.ofNat k * slotsBaseAddr i) :
    half m' (t + 2) % 2 ^ 13 = half m (t + 2) % 2 ^ 13 := by
  have hn := congrArg UInt32.toNat h
  simp only [UInt32.toNat_add, UInt32.toNat_mul, load32_toNat, slotsBaseAddr_toNat] at hn
  rw [Nat.mul_left_comm, Nat.mul_left_comm (UInt32.ofNat k).toNat] at hn
  generalize (UInt32.ofNat k').toNat * (73 + 32 * i.val) = p' at hn
  generalize (UInt32.ofNat k).toNat * (73 + 32 * i.val) = p at hn
  omega

end Halves

section Words

variable {a b x : UInt32}

theorem Apart.symm (h : Apart a b) : Apart b a := Span.disjoint_comm.mp h

theorem apart_of_aligned (ha : a.toNat % 4 = 0) (hb : b.toNat % 4 = 0) (hne : a ≠ b) : Apart a b := by
  intro x hx hx'
  rw [Span.mem_iff, UInt32.toNat_sub] at hx hx'
  apply hne
  apply UInt32.toNat_inj.mp
  have := x.toNat_lt
  have := a.toNat_lt
  have := b.toNat_lt
  dsimp only at hx hx'
  omega

theorem eq_or_half_of_mem (ha : a.toNat % 2 = 0) (hb : b.toNat % 2 = 0) (h : a ∈ Span.mk b 4) :
    a = b ∨ a = b + 2 := by
  rw [Span.mem_iff, UInt32.toNat_sub] at h
  dsimp only at h
  have := a.toNat_lt
  have := b.toNat_lt
  have h2 : (2 : UInt32).toNat = 2 := rfl
  by_cases he : a.toNat = b.toNat
  · exact .inl (UInt32.toNat_inj.mp he)
  · right
    apply UInt32.toNat_inj.mp
    rw [UInt32.toNat_add, h2]
    omega

theorem mem_succ_iff (ha : a.toNat % 2 = 0) (hb : b.toNat % 2 = 0) :
    a + 1 ∈ Span.mk b 4 ↔ a ∈ Span.mk b 4 := by
  have h1 : (1 : UInt32).toNat = 1 := rfl
  rw [Span.mem_iff, Span.mem_iff, UInt32.toNat_sub, UInt32.toNat_sub, UInt32.toNat_add, h1]
  dsimp only
  have := a.toNat_lt
  have := b.toNat_lt
  omega

end Words

/-- The words of the GOT pass `g`, which has the words `w` of the sections, and the targets `t`. -/
structure Passes (g w t : List UInt32) : Prop where
  nodup : g.Nodup
  aligned : ∀ a ∈ g, a.toNat % 4 = 0
  within : ∀ a ∈ w, a ∈ g
  even : ∀ a ∈ t, a.toNat % 2 = 0
  apart : ∀ a ∈ t, ∀ b ∈ t, a = b ∨ Apart a b
  outside : ∀ a ∈ w, ∀ b ∈ t, Apart a b

section Passes

variable {g w t : List UInt32} {i : Slot} {m : Ram}

theorem Passes.got_apart (h : Passes g w t) {a b : UInt32} (ha : a ∈ g) (hb : b ∈ g) : b = a ∨ Apart a b := by
  by_cases hne : b = a
  · exact .inl hne
  · exact .inr (apart_of_aligned (h.aligned a ha) (h.aligned b hb) (Ne.symm hne))

theorem Passes.all_apart (h : Passes g w t) (hg : ∀ a ∈ g, a ∈ w ++ t) :
    ∀ a ∈ g ++ t, ∀ b ∈ g ++ t, b = a ∨ Apart a b := by
  have hgt : ∀ a ∈ g, ∀ b ∈ t, b = a ∨ Apart a b := by
    intro a ha b hb
    rcases List.mem_append.mp (hg a ha) with hw | ht
    · exact .inr (h.outside a hw b hb)
    · exact (h.apart a ht b hb).imp_left Eq.symm
  intro a ha b hb
  rcases List.mem_append.mp ha with ha | ha <;> rcases List.mem_append.mp hb with hb | hb
  · exact h.got_apart ha hb
  · exact hgt a ha b hb
  · exact (hgt b hb a ha).imp Eq.symm Apart.symm
  · exact (h.apart a ha b hb).imp_left Eq.symm

theorem Passes.load32_got (h : Passes g w t) {a : UInt32} (ha : a ∈ g) :
    load32 (adds (slotsBaseAddr i) g m) a = load32 m a + slotsBaseAddr i := by
  rw [load32_adds fun b hb => h.got_apart ha hb, List.count_eq_one_of_mem h.nodup ha, UInt32.ofNat_one,
    UInt32.one_mul]

theorem Passes.got_mem (h : Passes g w t)
    (hr : Relocated (w ++ t) (slotsBaseAddr i) m (adds (slotsBaseAddr i) (g ++ t) m)) {a : UInt32} (ha : a ∈ g) :
    a ∈ w ++ t := by
  by_contra hno
  rw [List.mem_append, not_or] at hno
  have hhalf := half_add_base i (h.load32_got (i := i) (m := m) ha)
  rw [adds_append] at hr
  generalize adds (slotsBaseAddr i) g m = m₁ at hr hhalf
  have heven : a.toNat % 2 = 0 := by have := h.aligned a ha; omega
  by_cases hcov : ∃ b ∈ t, a ∈ Span.mk b 4
  · obtain ⟨b, hb, hab⟩ := hcov
    rcases eq_or_half_of_mem heven (h.even b hb) hab with rfl | rfl
    · exact hno.2 hb
    · have hapart : ∀ c ∈ t, c = b ∨ Apart b c := fun c hc => (h.apart b hb c hc).imp_left Eq.symm
      have honce : load32 m b + UInt32.ofNat 1 * slotsBaseAddr i =
          load32 m₁ b + UInt32.ofNat (t.count b) * slotsBaseAddr i := by
        rw [UInt32.ofNat_one, UInt32.one_mul, ← hr.1 b (List.mem_append_right w hb)]
        exact load32_adds hapart
      exact hhalf (half_add_multiples i honce.symm)
  · have hout (x : UInt32) (hx : x ∈ Span.mk a 4) (ht : ∀ b ∈ t, x ∉ Span.mk b 4) : m₁ x = m x := by
      refine (adds_of_notMem ht).symm.trans (hr.2 x ?_)
      intro c hc
      rcases List.mem_append.mp hc with hc | hc
      · have hne : c ≠ a := fun he => hno.1 (he ▸ hc)
        exact ((h.got_apart ha (h.within c hc)).resolve_left hne) x hx
      · exact ht c hc
    have hfirst (b : UInt32) (hb : b ∈ t) : a ∉ Span.mk b 4 := fun hab => hcov ⟨b, hb, hab⟩
    have hself : a ∈ Span.mk a 4 := by
      rw [Span.mem_iff, UInt32.sub_self]
      exact Nat.zero_lt_succ 3
    have hsucc : a + 1 ∈ Span.mk a 4 := (mem_succ_iff heven heven).mpr hself
    have h0 := hout a hself hfirst
    have h1 := hout (a + 1) hsucc fun b hb hab => hfirst b hb ((mem_succ_iff heven (h.even b hb)).mp hab)
    apply hhalf
    rw [half, half, h0, h1]

/-- The two passes relocate the right words once exactly when they touch no other word, and each as
often as if it were once. -/
theorem Passes.relocated_iff (h : Passes g w t) :
    Relocated (w ++ t) (slotsBaseAddr i) m (adds (slotsBaseAddr i) (g ++ t) m) ↔
      ∀ a ∈ g ++ t, a ∈ w ++ t ∧ (g ++ t).count a % 2 ^ 19 = 1 := by
  have hsub : ∀ a ∈ w ++ t, a ∈ g ++ t := by
    intro a ha
    rcases List.mem_append.mp ha with ha | ha
    · exact List.mem_append_left _ (h.within a ha)
    · exact List.mem_append_right _ ha
  have hcount (hg : ∀ a ∈ g, a ∈ w ++ t) {a : UInt32} (ha : a ∈ g ++ t) :
      load32 (adds (slotsBaseAddr i) (g ++ t) m) a = load32 m a + slotsBaseAddr i ↔
        (g ++ t).count a % 2 ^ 19 = 1 := by
    rw [load32_adds (h.all_apart hg a ha), UInt32.add_right_inj, count_mul_base_iff]
  constructor
  · intro hr a ha
    have hg : ∀ a ∈ g, a ∈ w ++ t := fun a ha => h.got_mem hr ha
    have hmem : a ∈ w ++ t := (List.mem_append.mp ha).elim (hg a) (List.mem_append_right w)
    exact ⟨hmem, (hcount hg ha).mp (hr.1 a hmem)⟩
  · intro hall
    have hg : ∀ a ∈ g, a ∈ w ++ t := fun a ha => (hall a (List.mem_append_left t ha)).1
    constructor
    · intro a ha
      exact (hcount hg (hsub a ha)).mpr (hall a (hsub a ha)).2
    · intro x hx
      exact adds_of_notMem fun b hb => hx b (hall b hb).1

end Passes

end Orion68.LoaderRelocation
