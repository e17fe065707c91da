import Orion68.Lib.Copies
import Orion68.Lib.Memory

namespace Orion68.Memmove

open Copies Memory

section Code

/-- `while (n--) *d++ = *s++` -/
def paraFrente : ℕ → UInt32 → UInt32 → Ram → Ram
  | 0, _, _, m => m
  | n + 1, d, s, m => paraFrente n (d + 1) (s + 1) (Function.update m d (m s))

/-- `while (n--) *--d = *--s` -/
def paraTras : ℕ → UInt32 → UInt32 → Ram → Ram
  | 0, _, _, m => m
  | n + 1, d, s, m => paraTras n (d - 1) (s - 1) (Function.update m (d - 1) (m (s - 1)))

def memmove (dest src n : UInt32) (m : Ram) : UInt32 × Ram :=
  if dest > src ∧ dest < src + n then (dest, paraTras n.toNat (dest + n) (src + n) m)
  else (dest, paraFrente n.toNat dest src m)

end Code

section Regions

/-- `n` bytes of memory, whose end is an address as well. -/
structure Region (n : UInt32) where
  start : UInt32
  fits : start.toNat + n.toNat < 2 ^ 32

variable {n : UInt32} {r : Region n} {k : ℕ}

def Region.byte (r : Region n) (k : ℕ) : UInt32 := r.start + UInt32.ofNat k

theorem Region.toNat_byte (r : Region n) (hk : k ≤ n.toNat) : (r.byte k).toNat = r.start.toNat + k := by
  have hfits := r.fits
  rw [Region.byte, UInt32.toNat_add, UInt32.toNat_ofNat_of_lt' (Nat.lt_of_le_of_lt hk n.toNat_lt),
    Nat.mod_eq_of_lt (by omega)]

theorem Region.toNat_end (r : Region n) : (r.start + n).toNat = r.start.toNat + n.toNat := by
  rw [UInt32.toNat_add, Nat.mod_eq_of_lt r.fits]

instance : Membership UInt32 (Region n) := ⟨fun r x => ∃ k < n.toNat, x = r.byte k⟩

theorem Region.mem_iff {x : UInt32} :
    x ∈ r ↔ r.start.toNat ≤ x.toNat ∧ x.toNat < r.start.toNat + n.toNat := by
  constructor
  · rintro ⟨k, hk, rfl⟩
    rw [r.toNat_byte hk.le]
    omega
  · rintro ⟨hle, hlt⟩
    obtain ⟨k, hk⟩ := Nat.exists_eq_add_of_le hle
    refine ⟨k, by omega, UInt32.toNat.inj ?_⟩
    rw [r.toNat_byte (by omega), hk]

end Regions

section Loops

variable {M : ℕ → UInt8} {m : Ram} {d s : UInt32} {n : ℕ}

def Numbered (M : ℕ → UInt8) (m : Ram) : Prop := ∀ x : UInt32, M x.toNat = m x

theorem numbered_ofNat (m : Ram) : Numbered (fun a => m (UInt32.ofNat a)) m := fun _ =>
  congrArg m UInt32.ofNat_toNat

theorem Numbered.update (h : Numbered M m) (d s : UInt32) :
    Numbered (moved d.toNat s.toNat 1 M) (Function.update m d (m s)) := by
  intro x
  rw [moved_one, h s]
  by_cases hx : x = d
  · rw [hx, Function.update_self, Function.update_self]
  · rw [Function.update_of_ne hx, Function.update_of_ne fun h => hx (UInt32.toNat.inj h), h x]

theorem Numbered.paraFrente (h : Numbered M m) (hd : d.toNat + n < 2 ^ 32) (hs : s.toNat + n < 2 ^ 32) :
    Numbered (ascending 1 n d.toNat s.toNat M) (paraFrente n d s m) := by
  induction n generalizing d s m M with
  | zero => exact h
  | succ n ih =>
      have hnext {p : UInt32} (hp : p.toNat + (n + 1) < 2 ^ 32) : (p + 1).toNat = p.toNat + 1 := by
        rw [UInt32.toNat_add, UInt32.toNat_one, Nat.mod_eq_of_lt (by omega)]
      have hrest := ih (d := d + 1) (s := s + 1) (h.update d s) (by rw [hnext hd]; omega) (by rw [hnext hs]; omega)
      rw [hnext hd, hnext hs] at hrest
      exact hrest

theorem Numbered.paraTras (h : Numbered M m) {a b : ℕ} (hd : d.toNat = a + n) (hs : s.toNat = b + n) :
    Numbered (descending 1 n a b M) (paraTras n d s m) := by
  induction n generalizing d s m M with
  | zero => exact h
  | succ n ih =>
      have hlast {p : UInt32} {c : ℕ} (hp : p.toNat = c + (n + 1)) : (p - 1).toNat = c + n := by
        have hlt := p.toNat_lt
        rw [UInt32.toNat_sub, UInt32.toNat_one]
        omega
      have hstep := h.update (d - 1) (s - 1)
      rw [hlast hd, hlast hs] at hstep
      have hrest := ih hstep (hlast hd) (hlast hs)
      rw [descending, Nat.mul_one]
      exact hrest

end Loops

section Theorem

variable {n : UInt32}

theorem memmove_eq (dest src : Region n) (m : Ram) (x : UInt32) :
    (memmove dest.start src.start n m).2 x =
      moved dest.start.toNat src.start.toNat n.toNat (fun a => m (UInt32.ofNat a)) x.toNat := by
  have hm := numbered_ofNat m
  rw [memmove]
  split
  next h =>
    have hdown : Downward dest.start.toNat src.start.toNat (n.toNat * 1) :=
      Or.inl (UInt32.lt_iff_toNat_lt.mp h.1).le
    dsimp only
    rw [← hm.paraTras dest.toNat_end src.toNat_end x, descending_eq hdown, Nat.mul_one]
  next h =>
    have hup : Upward dest.start.toNat src.start.toNat (n.toNat * 1) := by
      by_contra hnot
      rw [Upward, not_or, Nat.not_le, Nat.not_le, Nat.mul_one] at hnot
      apply h
      exact ⟨UInt32.lt_iff_toNat_lt.mpr hnot.1, UInt32.lt_iff_toNat_lt.mpr (src.toNat_end ▸ hnot.2)⟩
    dsimp only
    rw [← hm.paraFrente dest.fits src.fits x, ascending_eq hup, Nat.mul_one]

theorem memmove_exact (dest src : Region n) (m : Ram) :
    (memmove dest.start src.start n m).1 = dest.start ∧
      (∀ k < n.toNat, (memmove dest.start src.start n m).2 (dest.byte k) = m (src.byte k)) ∧
      ∀ x ∉ dest, (memmove dest.start src.start n m).2 x = m x := by
  refine ⟨?_, ?_, ?_⟩
  · rw [memmove]
    split <;> rfl
  · intro k hk
    rw [memmove_eq, dest.toNat_byte hk.le, moved_inside hk, ← src.toNat_byte hk.le, UInt32.ofNat_toNat]
  · intro x hx
    rw [Region.mem_iff] at hx
    rw [memmove_eq, moved_outside (by omega), UInt32.ofNat_toNat]

/-- Three bytes, one place up. -/
theorem memmove_exact_overlap : (memmove 11 10 3 fun x => x.toUInt8).2 13 = 12 :=
  (memmove_exact ⟨11, by decide⟩ ⟨10, by decide⟩ fun x => x.toUInt8).2.1 2 (by decide)

end Theorem

end Orion68.Memmove
