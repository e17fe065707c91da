import Orion68.Shell.Browsing

namespace Orion68.ShellHistory

open Runs Teletype

section Statement

/-- The line shows a text, and `KEY_ENTER` returns it. -/
def Devolve (text : List UInt8) (s : Leitura) : Prop := s.tela.Shows 0x20 text ∧ cString (enter s) = some text

/-- The arrows move by one entry, as far as there are entries in the ring. -/
def passo (hist : List (List UInt8)) (p : Nat) (c : UInt8) : Nat :=
  if c = KEY_UP then min (p + 1) (min hist.length 16) else if c = KEY_DOWN then p - 1 else p

def posicao (hist : List (List UInt8)) (teclas : List UInt8) : Nat := teclas.foldl (passo hist) 0

/-- What holds of every line that is read on this history. -/
structure Navega (hist : List (List UInt8)) (h : Historia) : Prop where
  sobe : ∀ l : Linha, ∀ k text, k < 16 → hist[k]? = some text → l.teclas = List.replicate (k + 1) KEY_UP →
    ∃ s, le l h = some s ∧ Devolve text s
  passeia : ∀ l : Linha, (∀ c ∈ l.teclas, c = KEY_UP ∨ c = KEY_DOWN) →
    ∃ s, le l h = some s ∧ Devolve (entrada hist (posicao hist l.teclas)) s
  mistura : ∀ l : Linha, ∀ teclas c, l.teclas = teclas ++ [c] → posicao hist l.teclas ≠ posicao hist teclas →
    ∃ s, le l h = some s ∧ Devolve (entrada hist (posicao hist l.teclas)) s
  termina : ∀ l : Linha, ∃ s, le l h = some s ∧ s.len ≤ 127 ∧ s.buf[s.len]? = some 0

def HistoriaCerta (L : List Linha) : Prop := ∃ hist h, run entra L ([], inicial) = some (hist, h) ∧ Navega hist h

end Statement

section Positions

variable {hist : List (List UInt8)} {e : Edicao} {c : UInt8} {p k : Nat}

theorem tecla_pos (hp : e.pos ≤ min hist.length 16) : (e.tecla hist c).pos = passo hist e.pos c := by
  rw [Edicao.tecla, passo]
  by_cases hbs : c = KEY_BS
  · subst hbs
    rfl
  rw [if_neg hbs]
  by_cases hup : c = KEY_UP
  · rw [if_pos hup, if_pos hup]
    split
    next hlt => exact (Nat.min_eq_left hlt).symm
    next hge => omega
  rw [if_neg hup, if_neg hup]
  by_cases hdown : c = KEY_DOWN
  · rw [if_pos hdown, if_pos hdown]
    split
    next => rfl
    next hzero => omega
  rw [if_neg hdown, if_neg hdown]
  split
  next => rfl
  next => rfl

theorem passo_le (hp : p ≤ min hist.length 16) : passo hist p c ≤ min hist.length 16 := by
  rw [passo]
  split
  next => exact Nat.min_le_right _ _
  next => split <;> omega

theorem tecla_of_moves (hmove : (e.tecla hist c).pos ≠ e.pos) :
    e.tecla hist c = .vai hist (e.tecla hist c).pos := by
  revert hmove
  rw [Edicao.tecla]
  split
  next => exact fun h => absurd rfl h
  next =>
    split
    next =>
      split
      next => exact fun _ => rfl
      next => exact fun h => absurd rfl h
    next =>
      split
      next =>
        split
        next => exact fun _ => rfl
        next => exact fun h => absurd rfl h
      next =>
        split
        next => exact fun h => absurd rfl h
        next => exact fun h => absurd rfl h

theorem digita_pos {teclas : List UInt8} (hp : e.pos ≤ min hist.length 16) :
    (digita hist teclas e).pos = teclas.foldl (passo hist) e.pos := by
  induction teclas generalizing e with
  | nil => rfl
  | cons c teclas ih =>
      have hstep := tecla_pos (c := c) hp
      change (digita hist teclas (e.tecla hist c)).pos = teclas.foldl (passo hist) (passo hist e.pos c)
      rw [← hstep]
      exact ih (hstep ▸ passo_le hp)

theorem tecla_vai (harrow : c = KEY_UP ∨ c = KEY_DOWN) (hp : p ≤ min hist.length 16) :
    (Edicao.vai hist p).tecla hist c = .vai hist (passo hist p c) := by
  by_cases hmove : ((Edicao.vai hist p).tecla hist c).pos = p
  · have hpasso : ((Edicao.vai hist p).tecla hist c).pos = passo hist p c := tecla_pos hp
    rw [hmove] at hpasso
    rw [← hpasso]
    rcases harrow with rfl | rfl
    · rw [Edicao.tecla_up] at hmove ⊢
      split at hmove
      next => exact absurd hmove (Nat.succ_ne_self p)
      next h => rw [if_neg h]
    · rw [Edicao.tecla_down] at hmove ⊢
      split at hmove
      next h =>
        have hlt : 0 < p := h
        have hsub : p - 1 = p := hmove
        omega
      next h => rw [if_neg h]
  · rw [tecla_of_moves hmove, tecla_pos hp]
    rfl

theorem digita_arrows {teclas : List UInt8} (harrows : ∀ c ∈ teclas, c = KEY_UP ∨ c = KEY_DOWN)
    (hp : p ≤ min hist.length 16) :
    digita hist teclas (.vai hist p) = .vai hist (teclas.foldl (passo hist) p) := by
  induction teclas generalizing p with
  | nil => rfl
  | cons c teclas ih =>
      rw [List.forall_mem_cons] at harrows
      change digita hist teclas ((Edicao.vai hist p).tecla hist c) = _
      rw [tecla_vai harrows.1 hp]
      exact ih harrows.2 (passo_le hp)

theorem posicao_ups (hk : k ≤ min hist.length 16) : posicao hist (List.replicate k KEY_UP) = k := by
  induction k with
  | zero => rfl
  | succ k ih =>
      rw [posicao, List.replicate_succ', List.foldl_append, ← posicao, ih (by omega)]
      exact Nat.min_eq_left hk

end Positions

section Navigation

variable {hist : List (List UInt8)} {h : Historia} {s : Leitura} {p : Nat}

theorem Guarda.nul_notMem_entrada (hg : Guarda hist h) (p : Nat) : 0 ∉ entrada hist p := by
  cases p with
  | zero => exact List.not_mem_nil
  | succ p =>
      rw [entrada, List.getD_eq_getElem?_getD]
      cases ht : hist[p]? with
      | none => exact List.not_mem_nil
      | some t => exact (hg.linhas t (List.mem_of_getElem? ht)).2.2.1

theorem devolve_of_edita (he : Edita hist (.vai hist p) s) : Devolve (entrada hist p) s := by
  refine ⟨he.tela, ?_⟩
  rw [cString_of_nul he.enter]
  exact congrArg some (takeWhile_of_notMem (he.guarda.nul_notMem_entrada p))

theorem navega_of_guarda (hg : Guarda hist h) (hn : hist.length ≤ 2 ^ 31 - 15) : Navega hist h := by
  have hread : ∀ l : Linha, ∃ s, le l h = some s ∧ Edita hist (digita hist l.teclas (.vai hist 0)) s :=
    fun l => le_edita (by omega) hg l (.inl hn)
  have hwalk : ∀ l : Linha, (∀ c ∈ l.teclas, c = KEY_UP ∨ c = KEY_DOWN) →
      ∃ s, le l h = some s ∧ Devolve (entrada hist (posicao hist l.teclas)) s := by
    intro l harrows
    obtain ⟨s, hs, he⟩ := hread l
    rw [digita_arrows harrows (Nat.zero_le _)] at he
    exact ⟨s, hs, devolve_of_edita he⟩
  refine ⟨?_, hwalk, ?_, ?_⟩
  · intro l k text hk htext hups
    obtain ⟨s, hs, hd⟩ := hwalk l fun c hc => .inl (List.eq_of_mem_replicate (hups ▸ hc))
    obtain ⟨hlt, -⟩ := List.getElem?_eq_some_iff.mp htext
    rw [hups, posicao_ups (by omega), entrada, List.getD_eq_getElem?_getD, htext, Option.getD_some] at hd
    exact ⟨s, hs, hd⟩
  · intro l teclas c hl hmove
    obtain ⟨s, hs, he⟩ := hread l
    have hpos (teclas : List UInt8) : (digita hist teclas (.vai hist 0)).pos = posicao hist teclas :=
      digita_pos (Nat.zero_le _)
    have hlast : digita hist l.teclas (.vai hist 0) = (digita hist teclas (.vai hist 0)).tecla hist c := by
      rw [hl, digita, List.foldl_append]
      rfl
    rw [← hpos, ← hpos, hlast] at hmove
    rw [hlast, tecla_of_moves hmove, ← hlast, hpos] at he
    exact ⟨s, hs, devolve_of_edita he⟩
  · intro l
    obtain ⟨s, hs, he⟩ := hread l
    refine ⟨s, hs, ?_, ?_⟩
    · rw [he.len]
      exact he.curto
    · rw [he.len]
      exact prefix_nul he.buf

end Navigation

section History

variable {hist : List (List UInt8)} {h : Historia} {L : List Linha}

theorem naoVazias_concat (L : List Linha) (l : Linha) : naoVazias (L ++ [l]) =
    acrescenta (digita (naoVazias L) l.teclas (.vai (naoVazias L) 0)).texto (naoVazias L) :=
  List.foldl_concat _ _ _ _

theorem length_le_acrescenta (texto : List UInt8) (hist : List (List UInt8)) :
    hist.length ≤ (acrescenta texto hist).length := by
  rw [acrescenta]
  split
  next => exact le_rfl
  next => exact Nat.le_succ _

theorem length_acrescenta_le (texto : List UInt8) (hist : List (List UInt8)) :
    (acrescenta texto hist).length ≤ hist.length + 1 := by
  rw [acrescenta]
  split
  next => exact Nat.le_succ _
  next => exact le_rfl

theorem length_naoVazias_le (L : List Linha) : (naoVazias L).length ≤ L.length := by
  induction L using List.reverseRecOn with
  | nil => exact le_rfl
  | append_singleton L l ih =>
      rw [naoVazias_concat, List.length_append, List.length_singleton]
      exact (length_acrescenta_le _ _).trans (Nat.succ_le_succ ih)

theorem entra_guarda (hn : hist.length + 1 < 2 ^ 31) (hg : Guarda hist h) (l : Linha)
    (hret : hist.length ≤ 2 ^ 31 - 15 ∨ (entra l (hist, h)).isSome) :
    ∃ h', entra l (hist, h) = some (acrescenta (digita hist l.teclas (.vai hist 0)).texto hist, h') ∧
      Guarda (acrescenta (digita hist l.teclas (.vai hist 0)).texto hist) h' := by
  obtain ⟨s, hs, he⟩ := le_edita (by omega) hg l (hret.imp_right Option.isSome_of_isSome_bind)
  refine ⟨historyAdd (enter s) s.h, ?_, historyAdd_guarda hn he⟩
  change (le l h).bind _ = _
  rw [hs, Option.bind_some, cString_of_nul he.enter]
  rfl

theorem run_entra (hL : L.length < 2 ^ 31)
    (hret : (naoVazias L).length ≤ 2 ^ 31 - 15 ∨ (run entra L ([], inicial)).isSome) :
    ∃ h, run entra L ([], inicial) = some (naoVazias L, h) ∧ Guarda (naoVazias L) h := by
  induction L using List.reverseRecOn with
  | nil => exact ⟨inicial, rfl, guarda_inicial⟩
  | append_singleton L l ih =>
      rw [List.length_append, List.length_singleton] at hL
      rw [run_append] at hret
      have hgrows : (naoVazias L).length ≤ (naoVazias (L ++ [l])).length := by
        rw [naoVazias_concat]
        exact length_le_acrescenta _ _
      obtain ⟨h, hh, hg⟩ := ih (by omega) (hret.imp hgrows.trans Option.isSome_of_isSome_bind)
      rw [hh, Option.bind_some, run_cons] at hret
      have hlen := length_naoVazias_le L
      obtain ⟨h', hh', hg'⟩ := entra_guarda (by omega) hg l (hret.imp hgrows.trans Option.isSome_of_isSome_bind)
      refine ⟨h', ?_, naoVazias_concat L l ▸ hg'⟩
      rw [run_append_of_run hh, run_cons_of_step hh', run_nil, naoVazias_concat]

def setaAcima : Linha := ⟨[KEY_UP], List.replicate 128 0, by decide, List.length_replicate.ge⟩

theorem not_navega (hg : Guarda hist h) (hlo : 2 ^ 31 - 15 < hist.length) (hn : hist.length < 2 ^ 31) :
    ¬ Navega hist h := by
  intro hnav
  obtain ⟨s, hs, -⟩ := hnav.termina setaAcima
  change run tecla [KEY_UP] (comeca setaAcima.buf h) = some s at hs
  obtain ⟨t, ht, -⟩ := run_cons_eq_some.mp hs
  have hcount : (comeca setaAcima.buf h).h.histCount = hist.length := hg.histCount
  have hcursor : (comeca setaAcima.buf h).h.histCursor = -1 := rfl
  rw [tecla_up, HIST_SIZE, if_pos (by omega)] at ht
  have hidx := nonneg_of_mostra (Option.isSome_of_eq_some ht)
  refine absurd hidx (Int.not_le.mpr (idx_neg (n := hist.length) ?_ ?_ hlo hn))
  · exact hg.histCount
  · rw [hcursor]
    rfl

theorem historiaCerta_iff (hL : L.length < 2 ^ 31) : HistoriaCerta L ↔ (naoVazias L).length ≤ 2 ^ 31 - 15 := by
  constructor
  · rintro ⟨hist, h, hrun, hnav⟩
    obtain ⟨h', hrun', hg⟩ := run_entra hL (.inr (Option.isSome_of_eq_some hrun))
    obtain ⟨rfl, rfl⟩ := Prod.mk.inj (Option.some.inj (hrun.symm.trans hrun'))
    by_contra hlo
    exact not_navega hg (by omega) ((length_naoVazias_le L).trans_lt hL) hnav
  · intro hle
    obtain ⟨h, hrun, hg⟩ := run_entra hL (.inl hle)
    exact ⟨naoVazias L, h, hrun, navega_of_guarda hg hle⟩

def letra : Linha := ⟨[0x61], List.replicate 128 0, by decide, List.length_replicate.ge⟩

theorem naoVazias_letras (n : Nat) : naoVazias (List.replicate n letra) = List.replicate n [0x61] := by
  induction n with
  | zero => rfl
  | succ n ih =>
      rw [List.replicate_succ', naoVazias_concat, ih]
      rfl

end History

section Theorem

/-- The history is right as long as the arithmetic of its index stays within `int`. -/
theorem history_recalled_iff (L : List Linha) (hL : L.length < 2 ^ 31) :
    HistoriaCerta L ↔ (naoVazias L).length ≤ 2 ^ 31 - 15 := historiaCerta_iff hL

/-- The lines `a` to `t`: more than `HIST_SIZE` of them. -/
def vinteLinhas : List Linha := (List.finRange 20).map fun i : Fin 20 =>
  ⟨[0x61 + UInt8.ofNat i.val], List.replicate 128 0, by revert i; decide, List.length_replicate.ge⟩

theorem twenty_lines_recalled : HistoriaCerta vinteLinhas := by
  have hlen : vinteLinhas.length = 20 := by rw [vinteLinhas, List.length_map, List.length_finRange]
  exact (history_recalled_iff vinteLinhas (by omega)).mpr ((length_naoVazias_le vinteLinhas).trans (by omega))

theorem newest_of_many_lost : (List.replicate (2 ^ 31 - 14) letra).length < 2 ^ 31 ∧
    ¬ HistoriaCerta (List.replicate (2 ^ 31 - 14) letra) := by
  have hlen : (List.replicate (2 ^ 31 - 14) letra).length < 2 ^ 31 := by
    rw [List.length_replicate]
    omega
  refine ⟨hlen, ?_⟩
  rw [historiaCerta_iff hlen, naoVazias_letras, List.length_replicate]
  omega

end Theorem

end Orion68.ShellHistory
