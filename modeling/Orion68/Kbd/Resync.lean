import Orion68.Kbd.Frames

namespace Orion68.KbdResync

open Transducers KbdUsb KbdFrames

variable {alem : Keymap → UInt8 → UInt8} {s : Teclado} {g : List UInt8}

/-- The two bytes of a header do not stand next to each other. -/
def SemCabecalho (g : List UInt8) : Prop := ¬ [0x57, 0xAB] <:+: g

instance (g : List UInt8) : Decidable (SemCabecalho g) := inferInstanceAs (Decidable (¬ _))

def noFim (g : List UInt8) : ℕ := (g.rtakeWhile fun c => c = 0x57).length

theorem noFim_snoc (g : List UInt8) (c : UInt8) : noFim (g ++ [c]) = if c = 0x57 then noFim g + 1 else 0 := by
  rw [noFim]
  split
  next h =>
    rw [List.rtakeWhile_concat_pos _ _ _ (by simpa using h), List.length_append]
    rfl
  next h =>
    rw [List.rtakeWhile_concat_neg _ _ _ (by simpa using h)]
    rfl

theorem SemCabecalho.init {c : UInt8} (h : SemCabecalho (g ++ [c])) : SemCabecalho g :=
  fun hg => h (hg.trans (List.prefix_append g [c]).isInfix)

theorem SemCabecalho.noFim_eq_zero (h : SemCabecalho (g ++ [0xAB])) : noFim g = 0 := by
  induction g using List.reverseRecOn with
  | nil => rfl
  | append_singleton g c _ =>
      rw [noFim_snoc, if_neg]
      rintro rfl
      exact h ⟨g, [], by simp⟩

variable (alem) in
/-- A parser that waits for a header takes every second first byte of a header for the byte after it. -/
theorem bytes_lixo (hg : SemCabecalho g) (hs : s.kbdState = .kbdWaitHdr1) (hp : s.kbdPendingChar = none) :
    bytes alem g s = ({ s with kbdState := if Even (noFim g) then .kbdWaitHdr1 else .kbdWaitHdr2 }, []) := by
  induction g using List.reverseRecOn with
  | nil =>
      rw [bytes, feed_nil, if_pos (by decide), ← hs]
  | append_singleton g c ih =>
      have hround (q q' : KbdState)
          (h : recebeByte alem c { s with kbdState := q } = { s with kbdState := q' }) :
          bytes alem [c] { s with kbdState := q } = ({ s with kbdState := q' }, []) := by
        rw [bytes, feed_cons, umByte, h, feed_nil]
        dsimp only
        rw [hp]
        rfl
      refine (feed_append_silent (ih hg.init) [c]).trans (hround _ _ ?_)
      rw [noFim_snoc]
      by_cases heven : Even (noFim g)
      · rw [if_pos heven]
        by_cases hc : c = 0x57
        · have hodd : ¬ Even (noFim g + 1) := by rwa [Nat.even_add_one, not_not]
          rw [if_pos hc, if_neg hodd]
          exact if_pos hc
        · rw [if_neg hc, if_pos (by decide)]
          exact if_neg hc
      · rw [if_neg heven]
        have hab : c ≠ 0xAB := by
          rintro rfl
          exact heven (by rw [hg.noFim_eq_zero]; decide)
        have hnext : Even (if c = 0x57 then noFim g + 1 else 0) := by
          split
          · exact Nat.even_add_one.mpr heven
          · decide
        rw [if_pos hnext, recebeByte]
        dsimp only
        rw [if_neg hab]

/-- The key `a` alone. -/
def teclaA : Relatorio := ⟨[0, 0, 0, 0x04], by decide⟩

theorem decodificado_teclaA (s : Teclado) : (teclaA.decodificado alem s).2 ≠ [] := by
  have hbuffer : (teclaA.lido s).keyBuffer 2 = 0 ∧ (teclaA.lido s).keyBuffer 4 = 0x04 := ⟨rfl, rfl⟩
  rw [Relatorio.decodificado, kbdFinish0x88, hbuffer.1, hbuffer.2, if_neg (by decide), if_neg (by decide),
    if_neg (by decide), if_neg (by decide), if_neg (by decide), if_neg (by decide), decodifica]
  dsimp only
  rw [hbuffer.2, if_pos (by decide)]
  exact List.cons_ne_nil _ _

variable (alem) in
theorem bytes_teclaA_of_hdr2 (hs : s.kbdState = .kbdWaitHdr2) (hp : s.kbdPendingChar = none) :
    (bytes alem teclaA.quadro s).2 = [] := by
  obtain ⟨q, size, index, p, caps, len, type, ku, kd, su, sd, status, mod, buffer, sent⟩ := s
  cases hs
  cases hp
  rfl

/-- After bytes without a header every report is decoded, and its key is delivered, exactly when the
bytes end with an even number of first bytes of a header. -/
theorem resync_iff (alem : Keymap → UInt8 → UInt8) (antes g : List UInt8)
    (hs : (bytes alem antes inicial).1.kbdState = .kbdWaitHdr1) (hg : SemCabecalho g) :
    (∀ r : Relatorio, bytes alem (g ++ r.quadro) (bytes alem antes inicial).1 =
      r.decodificado alem (bytes alem antes inicial).1) ↔ Even (noFim g) := by
  have hp := kbdPendingChar_bytes alem (s := inicial) antes rfl
  generalize (bytes alem antes inicial).1 = s at hs hp ⊢
  have hlixo := bytes_lixo alem hg hs hp
  constructor
  · intro h
    by_contra hodd
    rw [if_neg hodd] at hlixo
    have hlost := bytes_teclaA_of_hdr2 alem (s := { s with kbdState := .kbdWaitHdr2 }) rfl hp
    have hrun := (feed_append_silent hlixo teclaA.quadro).symm.trans (h teclaA)
    exact decodificado_teclaA s ((congrArg Prod.snd hrun).symm.trans hlost)
  · intro heven r
    rw [if_pos heven, ← hs] at hlixo
    exact (feed_append_silent hlixo r.quadro).trans (bytes_quadro r hs hp)

theorem resync_after_two_headers :
    bytes (fun _ _ => 0) ([0x57, 0x57] ++ teclaA.quadro) inicial = teclaA.decodificado (fun _ _ => 0) inicial :=
  (resync_iff (fun _ _ => 0) [] [0x57, 0x57] rfl (by decide)).mpr (by decide) teclaA

/-- A repeated first byte of the header swallows the report. -/
theorem repeated_header_swallows : ¬ ∀ (alem : Keymap → UInt8 → UInt8) (antes g : List UInt8),
    (bytes alem antes inicial).1.kbdState = .kbdWaitHdr1 → SemCabecalho g →
      ∀ r : Relatorio, bytes alem (g ++ r.quadro) (bytes alem antes inicial).1 =
        r.decodificado alem (bytes alem antes inicial).1 := by
  intro h
  have hkey := congrArg Prod.snd (h (fun _ _ => 0) [] [0x57] rfl (by decide) teclaA)
  exact absurd hkey (by decide)

end Orion68.KbdResync
