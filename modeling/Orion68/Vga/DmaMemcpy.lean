import Mathlib.Data.Nat.Bitwise
import Orion68.Lib.Copies
import Orion68.Vga.Terminal

namespace Orion68.VgaDma

open Copies Vga

section Channel

inductive DmaSize
  | size8
  | size32
  deriving DecidableEq

def DmaSize.bytes : DmaSize → ℕ
  | size8 => 1
  | size32 => 4

/-- What the channel has been configured for. -/
structure Transferencia where
  size : DmaSize
  escrita : ℕ
  leitura : ℕ
  quantos : ℕ

/-- The transfer done. The low bits of the addresses of a word are dropped. -/
def Transferencia.executa (t : Transferencia) (m : ℕ → UInt8) : ℕ → UInt8 :=
  ascending t.size.bytes t.quantos (t.escrita / t.size.bytes * t.size.bytes) (t.leitura / t.size.bytes * t.size.bytes) m

/-- The memory, and the transfer that the channel `memcpy_dma_chan` has not finished. -/
structure Sistema where
  mem : ℕ → UInt8
  emCurso : Option Transferencia

def dmaChannelConfigure (t : Transferencia) (s : Sistema) : Sistema := { s with emCurso := some t }

def dmaChannelWaitForFinishBlocking (s : Sistema) : Sistema :=
  match s.emCurso with
  | none => s
  | some t => ⟨t.executa s.mem, none⟩

theorem configure_wait (t : Transferencia) (s : Sistema) :
    dmaChannelWaitForFinishBlocking (dmaChannelConfigure t s) = ⟨t.executa s.mem, none⟩ := rfl

end Channel

section Code

def vbufferSize : ℕ := 153600

def bytesPerRow : ℕ := 5120

def dmaMinXfer : ℕ := 16

/-- The loop at the head, which ends at a word boundary of `d`: what is left of `num`, the pointers, and the memory. -/
def cabeca : ℕ → ℕ → ℕ → (ℕ → UInt8) → ℕ × ℕ × ℕ × (ℕ → UInt8)
  | 0, d, s, m => (0, d, s, m)
  | num + 1, d, s, m =>
      if d &&& 3 ≠ 0 then cabeca num (d + 1) (s + 1) (Function.update m d (m s)) else (num + 1, d, s, m)

def cauda : ℕ → ℕ → ℕ → (ℕ → UInt8) → ℕ → UInt8
  | 0, _, _, m => m
  | tail + 1, d, s, m => cauda tail (d + 1) (s + 1) (Function.update m d (m s))

def dmaMemcpy (dest src num : ℕ) (block : Bool) (σ : Sistema) : Sistema :=
  if num = 0 then σ
  else if num < dmaMinXfer then { σ with mem := moved dest src num σ.mem }
  else
    let σ := if σ.emCurso.isSome then dmaChannelWaitForFinishBlocking σ else σ
    if (dest ^^^ src) &&& 3 ≠ 0 then
      let σ := dmaChannelConfigure ⟨.size8, dest, src, num⟩ σ
      if block then dmaChannelWaitForFinishBlocking σ else σ
    else
      let (num, d, s, m) := cabeca num dest src σ.mem
      let σ := { σ with mem := m }
      if num = 0 then σ
      else
        let words := num >>> 2
        let tail := num &&& 3
        if block then
          let (d, s, σ) :=
            if words > 0 then
              (d + words <<< 2, s + words <<< 2,
                dmaChannelWaitForFinishBlocking (dmaChannelConfigure ⟨.size32, d, s, words⟩ σ))
            else (d, s, σ)
          { σ with mem := cauda tail d s σ.mem }
        else if tail = 0 then dmaChannelConfigure ⟨.size32, d, s, words⟩ σ
        else dmaChannelConfigure ⟨.size8, d, s, num⟩ σ

/-- With the framebuffer at `fb`. -/
def scrollUp (fb : ℕ) (σ : Sistema) : Sistema :=
  let bytesParaCopiar := vbufferSize - bytesPerRow
  let σ := dmaMemcpy fb (fb + bytesPerRow) bytesParaCopiar true σ
  { σ with mem := fun a =>
      if fb + bytesParaCopiar ≤ a ∧ a < fb + bytesParaCopiar + bytesPerRow then 0 else σ.mem a }

end Code

section Copying

variable {d s num : ℕ} {m : ℕ → UInt8}

theorem low_bits (a : ℕ) : a &&& 3 = a % 4 := Nat.and_two_pow_sub_one_eq_mod a 2

theorem aligned_iff (d s : ℕ) : (d ^^^ s) &&& 3 = 0 ↔ d % 4 = s % 4 := by
  rw [low_bits, Nat.xor_mod_two_pow (n := 2), Nat.xor_eq_zero_iff]

theorem executa_eq {t : Transferencia} (hd : t.escrita % t.size.bytes = 0) (hs : t.leitura % t.size.bytes = 0)
    (h : Upward t.escrita t.leitura (t.quantos * t.size.bytes)) (m : ℕ → UInt8) :
    t.executa m = moved t.escrita t.leitura (t.quantos * t.size.bytes) m := by
  rw [Transferencia.executa, Nat.div_mul_cancel (Nat.dvd_of_mod_eq_zero hd),
    Nat.div_mul_cancel (Nat.dvd_of_mod_eq_zero hs), ascending_eq h]

theorem cauda_eq (h : Upward d s num) (m : ℕ → UInt8) : cauda num d s m = moved d s num m := by
  induction num generalizing d s m with
  | zero => rw [moved_zero, cauda]
  | succ num ih =>
      rw [Nat.add_comm] at h
      rw [cauda, ← moved_one, ih h.right, moved_append h, Nat.add_comm]

theorem cabeca_spec (h : Upward d s num) (hds : d % 4 = s % 4) (m : ℕ → UInt8) :
    ∃ k rest, num = k + rest ∧ cabeca num d s m = (rest, d + k, s + k, moved d s k m) ∧
      (rest ≠ 0 → (d + k) % 4 = 0 ∧ (s + k) % 4 = 0) := by
  induction num generalizing d s m with
  | zero => exact ⟨0, 0, rfl, by rw [cabeca, moved_zero]; rfl, fun h => absurd rfl h⟩
  | succ num ih =>
      rw [Nat.add_comm] at h
      rw [cabeca, low_bits]
      split
      next hd =>
        obtain ⟨k, rest, rfl, hrun, hend⟩ := ih h.right (by omega) (Function.update m d (m s))
        have hstep := moved_append (k := k) (Upward.left (n := 1 + k) (k := rest) (by rwa [Nat.add_assoc])) (m := m)
        refine ⟨1 + k, rest, by omega, ?_, ?_⟩
        · rw [hrun, ← moved_one, hstep, Nat.add_assoc, Nat.add_assoc]
        · rwa [← Nat.add_assoc, ← Nat.add_assoc]
      next hd =>
        refine ⟨0, num + 1, (Nat.zero_add _).symm, ?_, fun _ => by omega⟩
        rw [moved_zero]
        rfl

theorem bulk_eq {words : ℕ} (h : Upward d s (words * 4)) (hd : d % 4 = 0) (hs : s % 4 = 0) (m : ℕ → UInt8) :
    (if words > 0 then
      (d + words <<< 2, s + words <<< 2,
        dmaChannelWaitForFinishBlocking (dmaChannelConfigure ⟨.size32, d, s, words⟩ ⟨m, none⟩))
      else (d, s, ⟨m, none⟩)) =
      (d + words * 4, s + words * 4, (⟨moved d s (words * 4) m, none⟩ : Sistema)) := by
  split
  next hpos =>
    have hrun := executa_eq (t := ⟨.size32, d, s, words⟩) hd hs h m
    rw [configure_wait, hrun, Nat.shiftLeft_eq]
    rfl
  next hzero =>
    have hnone : words = 0 := Nat.eq_zero_of_not_pos hzero
    rw [hnone, Nat.zero_mul, moved_zero, Nat.add_zero, Nat.add_zero]

/-- Whichever way a copy goes, it comes to the same as one at once, and leaves the channel idle. -/
theorem dmaMemcpy_eq (h : d < s ∨ s + num ≤ d) (m : ℕ → UInt8) :
    dmaMemcpy d s num true ⟨m, none⟩ = ⟨moved d s num m, none⟩ := by
  have hup : Upward d s num := h.imp_left Nat.le_of_lt
  rw [dmaMemcpy]
  by_cases hzero : num = 0
  · rw [if_pos hzero, hzero, moved_zero]
  rw [if_neg hzero]
  by_cases hfew : num < dmaMinXfer
  · rw [if_pos hfew]
  rw [if_neg hfew]
  dsimp only [Option.isSome_none]
  rw [if_neg Bool.false_ne_true]
  by_cases halign : (d ^^^ s) &&& 3 = 0
  · obtain ⟨k, rest, rfl, hrun, hbound⟩ := cabeca_spec hup ((aligned_iff d s).mp halign) m
    rw [if_neg (not_not.mpr halign), hrun]
    dsimp only
    by_cases hrest : rest = 0
    · rw [if_pos hrest, hrest, Nat.add_zero]
    obtain ⟨hd, hs⟩ := hbound hrest
    have hsplit : rest >>> 2 * 4 + (rest &&& 3) = rest := by
      rw [Nat.shiftRight_eq_div_pow, low_bits]
      exact Nat.div_add_mod' rest 4
    have hafter := hup.right
    rw [← hsplit] at hafter
    rw [if_neg hrest, if_pos rfl, bulk_eq hafter.left hd hs]
    dsimp only
    rw [cauda_eq hafter.right, moved_append hafter, hsplit, moved_append hup]
  · have hbytes := executa_eq (t := ⟨.size8, d, s, num⟩) (Nat.mod_one d) (Nat.mod_one s)
      ((Nat.mul_one num).symm ▸ hup) m
    rw [if_pos halign, if_pos rfl, configure_wait]
    dsimp only
    rw [hbytes]
    dsimp only [DmaSize.bytes]
    rw [Nat.mul_one]

end Copying

section Scrolling

variable {fb : ℕ}

theorem scrollUp_eq (fb : ℕ) (m : ℕ → UInt8) :
    scrollUp fb ⟨m, none⟩ = ⟨fun a => if fb + 148480 ≤ a ∧ a < fb + 153600 then 0
      else moved fb (fb + 5120) 148480 m a, none⟩ := by
  have hcopy : dmaMemcpy fb (fb + bytesPerRow) 148480 true ⟨m, none⟩ = _ :=
    dmaMemcpy_eq (.inl (Nat.lt_add_of_pos_right (by decide))) m
  have hend : fb + (vbufferSize - bytesPerRow) + bytesPerRow = fb + 153600 := by
    unfold vbufferSize bytesPerRow
    omega
  have hsize : vbufferSize - bytesPerRow = 148480 := rfl
  rw [scrollUp, hend, hsize, hcopy]
  rfl

/-- The memory around the framebuffer, as the drawing functions see it. -/
def Tela.em (fb : ℕ) (m : ℕ → UInt8) (t : Tela) : Prop := ∀ a : ℕ, t.fb ((a : Int) - fb) = m a

theorem scrollUp_refines {m : ℕ → UInt8} {t : Tela} (h : Tela.em fb m t) :
    Tela.em fb (scrollUp fb ⟨m, none⟩).mem (scrollUpGraphics t) := by
  intro a
  rw [scrollUp_eq, scrollUpGraphics]
  dsimp only
  by_cases hmoved : fb ≤ a ∧ a < fb + 148480
  · have htela : 0 ≤ (a : Int) - fb ∧ (a : Int) - fb < txcount - 5120 := by
      unfold txcount
      omega
    have hplace : ((a - fb + (fb + 5120) : ℕ) : Int) - fb = (a : Int) - fb + 5120 := by omega
    rw [if_pos htela, if_neg (by omega), moved, if_pos hmoved, ← h, hplace]
  · have htela : ¬ (0 ≤ (a : Int) - fb ∧ (a : Int) - fb < txcount - 5120) := by
      unfold txcount
      omega
    have hlast : (txcount - 5120 ≤ (a : Int) - fb ∧ (a : Int) - fb < txcount) ↔
        fb + 148480 ≤ a ∧ a < fb + 153600 := by
      unfold txcount
      omega
    rw [if_neg htela, moved_outside hmoved, ← h]
    exact if_congr hlast rfl rfl

/-- A blocking copy upwards, however the two areas are aligned, brings `num` bytes to their destination as
they were and changes nothing else; so scrolling takes every row up by one and blanks the last. -/
theorem dmaMemcpy_copies (d s num : ℕ) (m : ℕ → UInt8) (h : d < s ∨ s + num ≤ d) :
    (dmaMemcpy d s num true ⟨m, none⟩).emCurso = none ∧
      (∀ k < num, (dmaMemcpy d s num true ⟨m, none⟩).mem (d + k) = m (s + k)) ∧
      (∀ a, ¬ (d ≤ a ∧ a < d + num) → (dmaMemcpy d s num true ⟨m, none⟩).mem a = m a) ∧
      ∀ fb,
        (∀ linha < 29, ∀ k < bytesPerRow, (scrollUp fb ⟨m, none⟩).mem (fb + linha * bytesPerRow + k) =
          m (fb + (linha + 1) * bytesPerRow + k)) ∧
        (∀ k < bytesPerRow, (scrollUp fb ⟨m, none⟩).mem (fb + 29 * bytesPerRow + k) = 0) ∧
        ∀ a, ¬ (fb ≤ a ∧ a < fb + vbufferSize) → (scrollUp fb ⟨m, none⟩).mem a = m a := by
  rw [dmaMemcpy_eq h]
  refine ⟨rfl, fun k => moved_inside, fun a => moved_outside, fun fb => ?_⟩
  rw [scrollUp_eq]
  unfold bytesPerRow vbufferSize
  dsimp only
  refine ⟨fun linha hl k hk => ?_, fun k hk => ?_, fun a ha => ?_⟩
  · have hplace : fb + linha * 5120 + k = fb + (linha * 5120 + k) := Nat.add_assoc ..
    have hsource : fb + 5120 + (linha * 5120 + k) = fb + (linha + 1) * 5120 + k := by omega
    rw [if_neg (by omega), hplace, moved_inside (by omega), hsource]
  · exact if_pos (by omega)
  · rw [if_neg (by omega), moved_outside (by omega)]

/-- Twenty bytes, four bytes down, from an odd address on: head, words and tail. -/
theorem dmaMemcpy_overlapping :
    (dmaMemcpy 1 5 20 true ⟨UInt8.ofNat, none⟩).emCurso = none ∧
      (∀ k < 20, (dmaMemcpy 1 5 20 true ⟨UInt8.ofNat, none⟩).mem (1 + k) = UInt8.ofNat (5 + k)) ∧
      (∀ a, ¬ (1 ≤ a ∧ a < 1 + 20) → (dmaMemcpy 1 5 20 true ⟨UInt8.ofNat, none⟩).mem a = UInt8.ofNat a) ∧
      ∀ fb,
        (∀ linha < 29, ∀ k < bytesPerRow, (scrollUp fb ⟨UInt8.ofNat, none⟩).mem (fb + linha * bytesPerRow + k) =
          UInt8.ofNat (fb + (linha + 1) * bytesPerRow + k)) ∧
        (∀ k < bytesPerRow, (scrollUp fb ⟨UInt8.ofNat, none⟩).mem (fb + 29 * bytesPerRow + k) = 0) ∧
        ∀ a, ¬ (fb ≤ a ∧ a < fb + vbufferSize) → (scrollUp fb ⟨UInt8.ofNat, none⟩).mem a = UInt8.ofNat a :=
  dmaMemcpy_copies 1 5 20 UInt8.ofNat (.inl (by decide))

end Scrolling

end Orion68.VgaDma
