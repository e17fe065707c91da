import Mathlib.Data.List.TakeWhile
import Orion68.Shell.ShellHistory

namespace Orion68.ShellHistory

open Runs Rings Teletype

section Index

theorem int32_of_bounds {v : Int} (hlo : -2 ^ 31 ≤ v) (hhi : v < 2 ^ 31) : int32 v = v := by
  rw [int32, Int.bmod_def]
  split <;> omega

theorem int32_of_overflow {v : Int} (hlo : 2 ^ 31 ≤ v) (hhi : v < 2 ^ 32) : int32 v = -(2 ^ 32 - v) := by
  rw [int32, Int.bmod_def]
  split <;> omega

variable {h : Historia} {n p : Nat}

theorem idx_eq (hcount : h.histCount = n) (hcursor : h.histCursor = p) (hp : p < n) (h16 : p < 16) (hn : n < 2 ^ 31) :
    idx h = if n + 15 - p < 2 ^ 31 then ((n : Int) - 1 - p) % 16 else -((2 ^ 32 - ((n : Int) + 15 - p)) % 16) := by
  have hsum : h.histCount - 1 - h.histCursor + HIST_SIZE = (n + 15 - p : Nat) := by
    rw [hcount, hcursor, HIST_SIZE]
    omega
  rw [idx, hsum, HIST_SIZE]
  split
  next hlt =>
    rw [int32_of_bounds (by omega) (by omega), Int.tmod_eq_emod_of_nonneg (by omega)]
    omega
  next hge =>
    rw [int32_of_overflow (by omega) (by omega), Int.neg_tmod, Int.tmod_eq_emod_of_nonneg (by omega)]
    omega

theorem idx_toNat (hcount : h.histCount = n) (hcursor : h.histCursor = p) (hp : p < n) (h16 : p < 16) (hn : n < 2 ^ 31)
    (hidx : 0 ≤ idx h) : (idx h).toNat = (n - 1 - p) % 16 := by
  rw [idx_eq hcount hcursor hp h16 hn] at hidx ⊢
  split at hidx
  next hlt =>
    rw [if_pos hlt]
    omega
  next hge =>
    rw [if_neg hge]
    omega

theorem idx_nonneg (hcount : h.histCount = n) (hcursor : h.histCursor = p) (hp : p < n) (h16 : p < 16)
    (hn : n ≤ 2 ^ 31 - 15) : 0 ≤ idx h := by
  rw [idx_eq hcount hcursor hp h16 (by omega)]
  split
  next => omega
  next => omega

theorem idx_neg (hcount : h.histCount = n) (hcursor : h.histCursor = (0 : Nat)) (hlo : 2 ^ 31 - 15 < n)
    (hn : n < 2 ^ 31) : idx h < 0 := by
  rw [idx_eq hcount hcursor (by omega) (by omega) hn, if_neg (by omega)]
  omega

end Index

section Buffers

variable {t b : List UInt8} {c : UInt8} {i : Nat}

theorem prefix_set (h : t <+: b) (hlt : t.length < b.length) : t ++ [c] <+: b.set t.length c := by
  obtain ⟨r, rfl⟩ := h
  cases r with
  | nil => simp at hlt
  | cons d r =>
      rw [List.set_append_right _ _ le_rfl, Nat.sub_self]
      exact ⟨r, List.append_assoc _ _ _⟩

theorem prefix_set_of_le (h : t <+: b) (hi : t.length ≤ i) : t <+: b.set i c := by
  obtain ⟨r, rfl⟩ := h
  rw [List.set_append_right _ _ hi]
  exact List.prefix_append _ _

theorem takeWhile_of_nul (h : t ++ [0] <+: b) : b.takeWhile (· ≠ 0) = t.takeWhile (· ≠ 0) := by
  obtain ⟨r, rfl⟩ := h
  induction t with
  | nil => rfl
  | cons a t ih =>
      rw [List.cons_append, List.cons_append, List.takeWhile_cons, List.takeWhile_cons, ih]

theorem cString_of_nul (h : t ++ [0] <+: b) : cString b = some (t.takeWhile (· ≠ 0)) := by
  have hmem : 0 ∈ b := h.subset (List.mem_append_right t (List.mem_singleton_self 0))
  rw [cString, if_pos hmem, takeWhile_of_nul h]

theorem takeWhile_of_notMem (h : 0 ∉ t) : t.takeWhile (· ≠ 0) = t := by
  rw [List.takeWhile_eq_self_iff]
  intro a ha
  exact decide_eq_true fun h0 => h (h0 ▸ ha)

theorem strlen_of_nul (h : t ++ [0] <+: b) (h0 : 0 ∉ t) : strlen b = t.length := by
  rw [strlen, takeWhile_of_nul h, takeWhile_of_notMem h0]

theorem prefix_nul (h : t ++ [0] <+: b) : b[t.length]? = some 0 := by
  obtain ⟨r, rfl⟩ := h
  simp

end Buffers

section Abstract

/-- What is being edited: how far back the browsing has gone, 0 for a new line, and the text. -/
structure Edicao where
  pos : Nat
  texto : List UInt8

def entrada (hist : List (List UInt8)) : Nat → List UInt8
  | 0 => []
  | p + 1 => hist.getD p []

def Edicao.vai (hist : List (List UInt8)) (p : Nat) : Edicao := ⟨p, entrada hist p⟩

def Edicao.tecla (hist : List (List UInt8)) (c : UInt8) (e : Edicao) : Edicao :=
  if c = KEY_BS then { e with texto := e.texto.dropLast }
  else if c = KEY_UP then if e.pos < min hist.length 16 then .vai hist (e.pos + 1) else e
  else if c = KEY_DOWN then if 0 < e.pos then .vai hist (e.pos - 1) else e
  else if e.texto.length < 127 then { e with texto := e.texto ++ [c] }
  else e

def digita (hist : List (List UInt8)) (teclas : List UInt8) (e : Edicao) : Edicao :=
  teclas.foldl (fun e c => e.tecla hist c) e

/-- The lines that are not empty as C strings, the most recent first, with one more. -/
def acrescenta (texto : List UInt8) (hist : List (List UInt8)) : List (List UInt8) :=
  if texto.takeWhile (· ≠ 0) = [] then hist else texto.takeWhile (· ≠ 0) :: hist

def naoVazias (L : List Linha) : List (List UInt8) :=
  L.foldl (fun hist l => acrescenta (digita hist l.teclas (.vai hist 0)).texto hist) []

end Abstract

section Matches

/-- The history holds the last of these lines; each could be typed. -/
structure Guarda (hist : List (List UInt8)) (h : Historia) : Prop where
  histCount : h.histCount = hist.length
  recalls : Recalls 16 (· % 16) hist.length (hist.map some) (cString ∘ h.history)
  fileira : ∀ i, (h.history i).length = 128
  linhas : ∀ t ∈ hist, t ≠ [] ∧ t.length ≤ 127 ∧ 0 ∉ t ∧ KEY_BS ∉ t

structure Edita (hist : List (List UInt8)) (e : Edicao) (s : Leitura) : Prop where
  guarda : Guarda hist s.h
  histCursor : s.h.histCursor = e.pos - 1
  pos : e.pos ≤ min hist.length 16
  len : s.len = e.texto.length
  curto : e.texto.length ≤ 127
  buf : e.texto ++ [0] <+: s.buf
  cabe : LINE_MAX ≤ s.buf.length
  tela : s.tela.Shows 0x20 e.texto
  semBS : KEY_BS ∉ e.texto

variable {hist : List (List UInt8)} {e : Edicao} {h : Historia} {s s' : Leitura} {c : UInt8} {p : Nat}

theorem guarda_inicial : Guarda [] inicial := ⟨rfl, recalls_nil, fun _ => List.length_replicate, nofun⟩

theorem Guarda.of_histCursor (hg : Guarda hist h) (cursor : Int) : Guarda hist { h with histCursor := cursor } :=
  ⟨hg.histCount, hg.recalls, hg.fileira, hg.linhas⟩

theorem redrawLine_eq (oldLen : Nat) (text : List UInt8) (s : Leitura) :
    redrawLine oldLen text s = { s with tela := s.tela.puts 0x08 (List.replicate oldLen 0x08 ++
      List.replicate oldLen 0x20 ++ List.replicate oldLen 0x08 ++ text) } := by
  rw [Line.puts_append, Line.puts_append, Line.puts_append]
  rfl

theorem mostra_eq (hidx : 0 ≤ idx s.h) {text : List UInt8}
    (hrow : cString (s.h.history (idx s.h).toNat) = some text) :
    mostra s = some ⟨s.h, strcpy text s.buf, strlen (strcpy text s.buf), s.tela.puts 0x08
      (List.replicate s.len 0x08 ++ List.replicate s.len 0x20 ++ List.replicate s.len 0x08 ++ text)⟩ := by
  rw [mostra, if_pos hidx, hrow, Option.map_some]
  simp only [redrawLine_eq]

theorem nonneg_of_mostra (h : (mostra s).isSome) : 0 ≤ idx s.h := by
  by_contra hneg
  rw [mostra, if_neg hneg] at h
  exact Bool.false_ne_true h

theorem comeca_edita (hg : Guarda hist h) {buf : List UInt8} (hcabe : LINE_MAX ≤ buf.length) :
    Edita hist (.vai hist 0) (comeca buf h) where
  guarda := hg.of_histCursor (-1)
  histCursor := rfl
  pos := Nat.zero_le _
  len := rfl
  curto := Nat.zero_le _
  buf := prefix_set List.nil_prefix (Nat.lt_of_lt_of_le (Nat.succ_pos 127) hcabe)
  cabe := by
    rw [comeca, List.length_set]
    exact hcabe
  tela := Line.shows_empty 0x20
  semBS := nofun

theorem mostra_edita (hg : Guarda hist s.h) (hcursor : s.h.histCursor = p) (hp : p < min hist.length 16)
    (hn : hist.length < 2 ^ 31) (hret : hist.length ≤ 2 ^ 31 - 15 ∨ (mostra s).isSome) {old : List UInt8}
    (hlen : s.len = old.length) (htela : s.tela.Shows 0x20 old) (hcabe : LINE_MAX ≤ s.buf.length) :
    ∃ s', mostra s = some s' ∧ Edita hist (.vai hist (p + 1)) s' := by
  obtain ⟨hpn, hp16⟩ := Nat.lt_min.mp hp
  have hidx : 0 ≤ idx s.h := by
    rcases hret with hle | hsome
    · exact idx_nonneg hg.histCount hcursor hpn hp16 hle
    · exact nonneg_of_mostra hsome
  have htext : hist[p]? = some hist[p] := List.getElem?_eq_getElem hpn
  have hentry : entrada hist (p + 1) = hist[p] := by
    rw [entrada, List.getD_eq_getElem?_getD, htext, Option.getD_some]
  have hrow : cString (s.h.history (idx s.h).toNat) = some hist[p] := by
    rw [idx_toNat hg.histCount hcursor hpn hp16 hn hidx]
    exact hg.recalls p (some hist[p]) hp16 (by rw [List.getElem?_map, htext]; rfl)
  obtain ⟨-, hshort, h0, hbs⟩ := hg.linhas _ (List.getElem_mem hpn)
  have hbuf : hist[p] ++ [0] <+: strcpy hist[p] s.buf :=
    ⟨s.buf.drop (hist[p].length + 1), List.append_assoc _ _ _⟩
  refine ⟨_, mostra_eq hidx hrow, ?_⟩
  rw [Edicao.vai, hentry, hlen]
  refine ⟨hg, ?_, hp, ?_, hshort, hbuf, ?_, ?_, hbs⟩
  · change s.h.histCursor = ((p + 1 : Nat) : Int) - 1
    rw [hcursor, Nat.cast_succ, add_sub_cancel_right]
  · exact strlen_of_nul hbuf h0
  · change LINE_MAX ≤ (hist[p] ++ 0 :: s.buf.drop (hist[p].length + 1)).length
    rw [List.length_append, List.length_cons, List.length_drop]
    omega
  · exact Line.shows_redraw (by decide) htela hbs

theorem tecla_up (s : Leitura) : tecla KEY_UP s =
    if s.h.histCursor + 1 < s.h.histCount ∧ s.h.histCursor + 1 < HIST_SIZE then
      mostra { s with h := { s.h with histCursor := s.h.histCursor + 1 } }
    else some s := rfl

theorem tecla_down (s : Leitura) : tecla KEY_DOWN s =
    if 0 < s.h.histCursor then mostra { s with h := { s.h with histCursor := s.h.histCursor - 1 } }
    else if s.h.histCursor = 0 then
      some ⟨{ s.h with histCursor := -1 }, s.buf.set 0 0, 0, (redrawLine s.len [] s).tela⟩
    else some s := rfl

theorem Edicao.tecla_up (e : Edicao) :
    e.tecla hist KEY_UP = if e.pos < min hist.length 16 then .vai hist (e.pos + 1) else e := rfl

theorem Edicao.tecla_down (e : Edicao) :
    e.tecla hist KEY_DOWN = if 0 < e.pos then .vai hist (e.pos - 1) else e := rfl

theorem bs_edita (he : Edita hist e s) : ∃ s', tecla KEY_BS s = some s' ∧ Edita hist (e.tecla hist KEY_BS) s' := by
  obtain ⟨hg, hcursor, hpos, hlen, hshort, hbuf, hcabe, htela, hbs⟩ := he
  obtain ⟨pos, texto⟩ := e
  rw [tecla, if_pos rfl, Edicao.tecla, if_pos rfl]
  rcases List.eq_nil_or_concat' texto with rfl | ⟨t, a, rfl⟩
  · rw [if_neg (by rw [hlen]; exact Nat.lt_irrefl 0)]
    exact ⟨s, rfl, hg, hcursor, hpos, hlen, hshort, hbuf, hcabe, htela, hbs⟩
  · simp only [List.length_append, List.length_singleton] at hlen hshort
    simp only [List.dropLast_concat, hlen, Nat.add_sub_cancel, if_pos (Nat.succ_pos t.length)]
    change 128 ≤ s.buf.length at hcabe
    have hlt : t.length < s.buf.length := by omega
    have hpre : t <+: s.buf := (List.prefix_append t [a]).trans ((List.prefix_append _ [0]).trans hbuf)
    refine ⟨_, rfl, hg, hcursor, hpos, rfl, Nat.le_of_succ_le hshort, prefix_set hpre hlt, ?_, ?_, ?_⟩
    · rw [puts, List.length_set]
      exact hcabe
    · exact Line.shows_rubout (by decide) htela
    · exact fun h => hbs (List.mem_append_left [a] h)

theorem up_edita (hn : hist.length < 2 ^ 31) (he : Edita hist e s)
    (hret : hist.length ≤ 2 ^ 31 - 15 ∨ (tecla KEY_UP s).isSome) :
    ∃ s', tecla KEY_UP s = some s' ∧ Edita hist (e.tecla hist KEY_UP) s' := by
  have hcount := he.guarda.histCount
  have hcursor := he.histCursor
  rw [tecla_up, HIST_SIZE] at hret ⊢
  rw [Edicao.tecla_up]
  by_cases hp : e.pos < min hist.length 16
  · rw [if_pos (by omega)] at hret ⊢
    rw [if_pos hp]
    exact mostra_edita (he.guarda.of_histCursor _) (by rw [hcursor, sub_add_cancel]) hp hn hret he.len he.tela he.cabe
  · rw [if_neg (by omega), if_neg hp]
    exact ⟨s, rfl, he⟩

theorem down_edita (hn : hist.length < 2 ^ 31) (he : Edita hist e s)
    (hret : hist.length ≤ 2 ^ 31 - 15 ∨ (tecla KEY_DOWN s).isSome) :
    ∃ s', tecla KEY_DOWN s = some s' ∧ Edita hist (e.tecla hist KEY_DOWN) s' := by
  obtain ⟨pos, texto⟩ := e
  have hcursor : s.h.histCursor = (pos : Int) - 1 := he.histCursor
  have hpos : pos ≤ min hist.length 16 := he.pos
  rw [tecla_down] at hret ⊢
  rw [Edicao.tecla_down]
  rcases pos with - | - | p
  · rw [if_neg (by omega), if_neg (by omega), if_neg (Nat.lt_irrefl 0)]
    exact ⟨s, rfl, he⟩
  · rw [if_neg (by omega), if_pos (by omega), if_pos Nat.zero_lt_one]
    refine ⟨_, rfl, he.guarda.of_histCursor (-1), rfl, Nat.zero_le _, rfl, Nat.zero_le _, ?_, ?_, ?_, nofun⟩
    · exact prefix_set List.nil_prefix (Nat.lt_of_lt_of_le (Nat.succ_pos 127) he.cabe)
    · rw [List.length_set]
      exact he.cabe
    · rw [redrawLine_eq, he.len]
      exact Line.shows_redraw (by decide) he.tela nofun
  · rw [if_pos (by omega)] at hret ⊢
    rw [if_pos (Nat.succ_pos _)]
    have hcursor' : s.h.histCursor - 1 = (p : Int) := by omega
    exact mostra_edita (he.guarda.of_histCursor _) hcursor' (by omega) hn hret he.len he.tela he.cabe

theorem char_edita (hbs : c ≠ KEY_BS) (hup : c ≠ KEY_UP) (hdown : c ≠ KEY_DOWN) (he : Edita hist e s) :
    ∃ s', tecla c s = some s' ∧ Edita hist (e.tecla hist c) s' := by
  obtain ⟨hg, hcursor, hpos, hlen, hshort, hbuf, hcabe, htela, hnot⟩ := he
  rw [tecla, if_neg hbs, if_neg hup, if_neg hdown, hlen]
  rw [Edicao.tecla, if_neg hbs, if_neg hup, if_neg hdown]
  by_cases hlt : e.texto.length < 127
  · rw [if_pos (show e.texto.length < LINE_MAX - 1 from hlt), if_pos hlt]
    change 128 ≤ s.buf.length at hcabe
    have hpre : e.texto <+: s.buf := (List.prefix_append _ [0]).trans hbuf
    have hset : e.texto ++ [c] <+: s.buf.set e.texto.length c := prefix_set hpre (by omega)
    have hend := prefix_set (c := 0) hset (by rw [List.length_append, List.length_set, List.length_singleton]; omega)
    rw [List.length_append, List.length_singleton] at hend
    refine ⟨_, rfl, hg, hcursor, hpos, ?_, ?_, hend, ?_, Line.shows_type hbs htela, ?_⟩
    · change e.texto.length + 1 = (e.texto ++ [c]).length
      rw [List.length_append, List.length_singleton]
    · rw [List.length_append]
      exact hlt
    · rw [putchar, List.length_set, List.length_set]
      exact hcabe
    · rw [List.mem_append, List.mem_singleton]
      exact fun h => h.elim hnot (Ne.symm hbs)
  · rw [if_neg (show ¬ e.texto.length < LINE_MAX - 1 from hlt), if_neg hlt]
    exact ⟨s, rfl, hg, hcursor, hpos, hlen, hshort, hbuf, hcabe, htela, hnot⟩

theorem tecla_edita (hn : hist.length < 2 ^ 31) (he : Edita hist e s)
    (hret : hist.length ≤ 2 ^ 31 - 15 ∨ (tecla c s).isSome) :
    ∃ s', tecla c s = some s' ∧ Edita hist (e.tecla hist c) s' := by
  by_cases hbs : c = KEY_BS
  · subst hbs
    exact bs_edita he
  by_cases hup : c = KEY_UP
  · subst hup
    exact up_edita hn he hret
  by_cases hdown : c = KEY_DOWN
  · subst hdown
    exact down_edita hn he hret
  · exact char_edita hbs hup hdown he

theorem run_edita (hn : hist.length < 2 ^ 31) {teclas : List UInt8} (he : Edita hist e s)
    (hret : hist.length ≤ 2 ^ 31 - 15 ∨ (run tecla teclas s).isSome) :
    ∃ s', run tecla teclas s = some s' ∧ Edita hist (digita hist teclas e) s' := by
  induction teclas generalizing e s with
  | nil => exact ⟨s, rfl, he⟩
  | cons c teclas ih =>
      have hstep : hist.length ≤ 2 ^ 31 - 15 ∨ (tecla c s).isSome := by
        refine hret.imp_right fun h => ?_
        rw [run_cons] at h
        exact Option.isSome_of_isSome_bind h
      obtain ⟨t, ht, het⟩ := tecla_edita hn he hstep
      rw [run_cons_of_step ht] at hret ⊢
      exact ih het hret

theorem le_edita (hn : hist.length < 2 ^ 31) (hg : Guarda hist h) (l : Linha)
    (hret : hist.length ≤ 2 ^ 31 - 15 ∨ (le l h).isSome) :
    ∃ s, le l h = some s ∧ Edita hist (digita hist l.teclas (.vai hist 0)) s :=
  run_edita hn (comeca_edita hg l.cabe) hret

theorem Edita.enter (he : Edita hist e s) : e.texto ++ [0] <+: enter s := by
  rw [ShellHistory.enter, he.len]
  refine prefix_set ((List.prefix_append _ [0]).trans he.buf) ?_
  have hcabe : 128 ≤ s.buf.length := he.cabe
  have hcurto := he.curto
  omega

theorem row_eq {texto cmd row : List UInt8} (hcmd : texto ++ [0] <+: cmd) (hlong : LINE_MAX ≤ cmd.length)
    (hrow : row.length = 128) (hshort : texto.length ≤ 127) :
    ((strncpy (LINE_MAX - 1) cmd row).set (LINE_MAX - 1) 0).length = 128 ∧
      cString ((strncpy (LINE_MAX - 1) cmd row).set (LINE_MAX - 1) 0) = some (texto.takeWhile (· ≠ 0)) := by
  change 128 ≤ cmd.length at hlong
  change ((strncpy 127 cmd row).set 127 0).length = 128 ∧ cString ((strncpy 127 cmd row).set 127 0) = _
  have hlength : (strncpy 127 cmd row).length = 128 := by
    rw [strncpy, List.length_append, List.length_take, List.length_drop]
    omega
  refine ⟨by rw [List.length_set, hlength], cString_of_nul ?_⟩
  rcases Nat.lt_or_eq_of_le hshort with hlt | heq
  · refine prefix_set_of_le ?_ ?_
    · refine List.IsPrefix.trans ?_ (List.prefix_append _ _)
      rw [List.prefix_take_iff]
      refine ⟨hcmd, ?_⟩
      rw [List.length_append, List.length_singleton]
      omega
    · rw [List.length_append, List.length_singleton]
      omega
  · rw [← heq]
    refine prefix_set ?_ (by rw [heq, hlength]; omega)
    refine List.IsPrefix.trans ?_ (List.prefix_append _ _)
    rw [List.prefix_take_iff]
    exact ⟨(List.prefix_append _ [0]).trans hcmd, le_rfl⟩

theorem head_eq_nul_iff {texto cmd : List UInt8} (hcmd : texto ++ [0] <+: cmd) :
    cmd.head? = some 0 ↔ texto.takeWhile (· ≠ 0) = [] := by
  obtain ⟨r, rfl⟩ := hcmd
  cases texto with
  | nil => exact ⟨fun _ => rfl, fun _ => rfl⟩
  | cons a texto => simp [List.takeWhile_cons]

theorem historyAdd_guarda (hn : hist.length + 1 < 2 ^ 31) (he : Edita hist e s) :
    Guarda (acrescenta e.texto hist) (historyAdd (enter s) s.h) := by
  have hg := he.guarda
  have hcount := hg.histCount
  rw [acrescenta, historyAdd]
  by_cases hempty : e.texto.takeWhile (· ≠ 0) = []
  · rw [if_pos hempty, if_pos ((head_eq_nul_iff he.enter).mpr hempty)]
    exact hg
  rw [if_neg hempty, if_neg (mt (head_eq_nul_iff he.enter).mp hempty)]
  have hplace : (s.h.histCount.tmod HIST_SIZE).toNat = hist.length % 16 := by
    rw [hcount, HIST_SIZE, Int.tmod_eq_emod_of_nonneg (by omega)]
    omega
  have hlong : LINE_MAX ≤ (enter s).length := by
    rw [enter, List.length_set]
    exact he.cabe
  obtain ⟨hlength, hrow⟩ := row_eq he.enter hlong (hg.fileira (hist.length % 16)) he.curto
  simp only [hplace]
  refine ⟨?_, ?_, ?_, ?_⟩
  · rw [hcount, int32_of_bounds (by omega) (by omega)]
    rfl
  · have hround : Round 16 (· % 16) := fun i j => Iff.rfl
    have hrecalls := hg.recalls
    rw [← List.length_map some] at hrecalls
    have hpush := hrecalls.push hround (some (e.texto.takeWhile (· ≠ 0)))
    rw [List.length_map] at hpush
    rw [Function.comp_update, hrow]
    simpa using hpush
  · exact (Function.forall_update_iff s.h.history fun _ row => row.length = 128).mpr
      ⟨hlength, fun i _ => hg.fileira i⟩
  · intro t ht
    rcases List.mem_cons.mp ht with rfl | ht
    · refine ⟨hempty, (List.takeWhile_prefix _).length_le.trans he.curto, ?_, ?_⟩
      · exact fun h => absurd (List.mem_takeWhile_imp h) (by decide)
      · exact fun h => he.semBS ((List.takeWhile_prefix _).subset h)
    · exact hg.linhas t ht

end Matches

end Orion68.ShellHistory
