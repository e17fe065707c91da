import Mathlib.Data.Finset.Insert
import Mathlib.Data.Finset.Erase
import Mathlib.Tactic.Common

namespace Orion68.HeldKeys

/-- A key goes down, again and again while it is held, or comes up. -/
inductive Stroke (α : Type)
  | down (k : α)
  | up (k : α)
  deriving DecidableEq

variable {α : Type} [DecidableEq α]

def Stroke.apply : Stroke α → Finset α → Finset α
  | down k, held => insert k held
  | up k, held => held.erase k

/-- The key goes down, and was not held before. -/
def Stroke.Presses (key : α) (held : Finset α) : Stroke α → Prop
  | down k => k = key ∧ key ∉ held
  | up _ => False

instance (key : α) (held : Finset α) (e : Stroke α) : Decidable (e.Presses key held) :=
  match e with
  | .down _ => inferInstanceAs (Decidable (_ ∧ _))
  | .up _ => inferInstanceAs (Decidable False)

section Latches

variable {acts cls : α → Prop} [DecidablePred acts] {held : Finset α} {flag : Bool}

def latch (acts : α → Prop) [DecidablePred acts] : Stroke α → Bool → Bool
  | .down k, flag => if acts k then true else flag
  | .up k, flag => if acts k then false else flag

def Tracks (cls : α → Prop) (held : Finset α) (flag : Bool) : Prop := flag = true ↔ ∃ k ∈ held, cls k

/-- No key of another class sets the flag, and none that clears it leaves a key of the class held. -/
def LatchSafe (acts cls : α → Prop) (held : Finset α) : Stroke α → Prop
  | .down k => acts k → cls k ∨ ∃ k' ∈ held, cls k'
  | .up k => acts k → ∀ k' ∈ held.erase k, ¬ cls k'

theorem exists_mem_erase_of_not {k : α} (hk : ¬ cls k) : (∃ k' ∈ held.erase k, cls k') ↔ ∃ k' ∈ held, cls k' := by
  constructor
  · rintro ⟨k', hmem, hcls⟩
    exact ⟨k', Finset.mem_of_mem_erase hmem, hcls⟩
  · rintro ⟨k', hmem, hcls⟩
    refine ⟨k', Finset.mem_erase.mpr ⟨?_, hmem⟩, hcls⟩
    rintro rfl
    exact hk hcls

theorem Tracks.latch_iff (hacts : ∀ k, cls k → acts k) (h : Tracks cls held flag) (e : Stroke α) :
    Tracks cls (e.apply held) (latch acts e flag) ↔ LatchSafe acts cls held e := by
  cases e with
  | down k =>
      rw [Tracks, latch, Stroke.apply, LatchSafe, Finset.exists_mem_insert]
      by_cases hk : acts k
      · rw [if_pos hk, forall_prop_of_true hk]
        exact ⟨fun htracks => htracks.mp rfl, fun hheld => iff_of_true rfl hheld⟩
      · have hcls : ¬ cls k := fun hcls => hk (hacts k hcls)
        rw [if_neg hk, or_iff_right hcls]
        exact iff_of_true h fun hk' => absurd hk' hk
  | up k =>
      rw [Tracks, latch, Stroke.apply, LatchSafe]
      by_cases hk : acts k
      · rw [if_pos hk, forall_prop_of_true hk]
        simp
      · rw [if_neg hk, exists_mem_erase_of_not fun hcls => hk (hacts k hcls)]
        exact iff_of_true h fun hk' => absurd hk' hk

end Latches

section Toggles

variable {acts : α → Prop} [DecidablePred acts] {held : Finset α} {key : α}

/-- Every key that acts on the flag turns it over when it goes down. -/
def toggle (acts : α → Prop) [DecidablePred acts] : Stroke α → Bool → Bool
  | .down k, flag => if acts k then !flag else flag
  | .up _, flag => flag

/-- Only one key acts on the flag, and does so when it is pressed, not while it is held. -/
def ToggleSafe (acts : α → Prop) (key : α) (held : Finset α) : Stroke α → Prop
  | .down k => acts k → k = key ∧ key ∉ held
  | .up _ => True

theorem toggle_eq_iff (hkey : acts key) (e : Stroke α) (flag : Bool) :
    toggle acts e flag = (if e.Presses key held then !flag else flag) ↔ ToggleSafe acts key held e := by
  have hnot : ¬ (!flag) = flag := by cases flag <;> decide
  cases e with
  | down k =>
      rw [toggle, ToggleSafe]
      change _ = (if k = key ∧ key ∉ held then !flag else flag) ↔ _
      by_cases hk : acts k
      · rw [if_pos hk, forall_prop_of_true hk]
        by_cases hpress : k = key ∧ key ∉ held
        · rw [if_pos hpress]
          exact iff_of_true rfl hpress
        · rw [if_neg hpress]
          exact iff_of_false hnot hpress
      · have hne : ¬ (k = key ∧ key ∉ held) := by
          rintro ⟨rfl, -⟩
          exact hk hkey
        rw [if_neg hk, if_neg hne]
        exact iff_of_true rfl fun hk' => absurd hk' hk
  | up k => exact iff_of_true (if_neg not_false).symm trivial

end Toggles

end Orion68.HeldKeys
