import Orion68.Libc.Formats

namespace Orion68.Stdio

section Statement

/-- For all arguments `sprintf` writes what `printf` puts out, and both return the same count. -/
def Concordam (format : List UInt8) : Prop := ∀ cstr args, ∃ r, printf cstr format args = some r ∧
  sprintf cstr format args = some r

/-- No directive has an `l`, each suits its flags, and the last one is complete. -/
def Comum : LeSprintf → List UInt8 → Prop
  | .texto, [] => True
  | .digitos _, [] => False
  | .texto, c :: format => if c = ch '%' then Comum (.digitos .nenhuma) format else Comum .texto format
  | .digitos f, c :: format =>
      if Digito c then Comum (.digitos (f.le c)) format else c ≠ ch 'l' ∧ Serve c f ∧ Comum .texto format

end Statement

section Agreement

variable {cstr : UInt32 → List UInt8} {m : LeSprintf} {format : List UInt8}

def LeSprintf.printf : LeSprintf → LePrintf
  | .texto => .texto
  | .digitos f => .digitos f

variable (cstr) in
theorem loops_agree (h : Comum m format) (args : Nat → UInt32) :
    ∃ out, sprintfLoop cstr m format args = some out ∧
      printfLoop cstr m.printf format args = some (out, out.length) := by
  induction format generalizing m args with
  | nil =>
      cases m with
      | texto => exact ⟨[], rfl, rfl⟩
      | digitos f => exact h.elim
  | cons c format ih =>
      cases m with
      | texto =>
          rw [Comum] at h
          rw [sprintfLoop, LeSprintf.printf, printfLoop]
          split at h
          next hc =>
            rw [if_pos hc, if_pos hc]
            exact ih h args
          next hc =>
            obtain ⟨out, hs, hp⟩ := ih h args
            change printfLoop cstr .texto format args = _ at hp
            rw [if_neg hc, if_neg hc, hs, hp]
            refine ⟨c :: out, rfl, ?_⟩
            rw [Option.map_some, List.length_cons, Nat.add_comm]
      | digitos f =>
          rw [Comum] at h
          rw [sprintfLoop, LeSprintf.printf, printfLoop]
          split at h
          next hc =>
            rw [if_pos hc, if_pos hc]
            exact ih h args
          next hc =>
            obtain ⟨hl, hserve, hrest⟩ := h
            obtain ⟨out, words, hs, hp⟩ := switch_agree cstr (args 0) hserve
            obtain ⟨rest, hs', hp'⟩ := ih hrest (pula words args)
            change printfLoop cstr .texto format _ = _ at hp'
            rw [if_neg hc, if_neg hc, if_neg hl, hs, hp, Option.bind_some, Option.bind_some, hs', hp']
            refine ⟨out ++ rest, rfl, ?_⟩
            rw [Option.map_some, List.length_append]

end Agreement

section Marks

/-- How often the characters come up that `sprintf` writes for an `l`. -/
def marcas (text : List UInt8) : Nat := text.countP fun c => c = ch '%' ∨ c = ch 'l'

variable {c : UInt8} {f : Flags} {text text' str : List UInt8}

theorem marcas_append (text text' : List UInt8) : marcas (text ++ text') = marcas text + marcas text' :=
  List.countP_append

theorem marcas_cons (c : UInt8) (text : List UInt8) : marcas (c :: text) = marcas [c] + marcas text :=
  marcas_append [c] text

theorem marcas_digitos (h : ∀ c ∈ text, Digito c) : marcas text = 0 := by
  rw [marcas, List.countP_eq_zero]
  intro c hc
  have hd := h c hc
  rw [decide_eq_true_iff]
  rintro (rfl | rfl)
  · exact absurd hd (by decide)
  · exact absurd hd (by decide)

/-- The arguments of which no number and no string has such a character. -/
def vazio : UInt32 → List UInt8 := fun _ => []

def uns : Nat → UInt32 := fun _ => 1

theorem marcas_numero (h : numero f [ch '1'] = some str) : marcas str = 0 := by
  have hone : ∀ c ∈ [ch '1'], Digito c := by
    intro c hc
    rw [List.mem_singleton.mp hc]
    decide
  apply marcas_digitos
  rw [numero] at h
  split at h
  next =>
    rw [padZeros] at h
    split at h
    next =>
      cases h
      exact hone
    next =>
      split at h
      next =>
        cases h
        intro c hc
        rcases List.mem_append.mp hc with hzero | hc
        · rw [List.eq_of_mem_replicate hzero]
          decide
        · exact hone c hc
      next => cases h
  next =>
    cases h
    exact hone

/-- A known directive shows such a character for `%` itself and for `f`; the flags are then suitable. -/
theorem sprintfSwitch_uns (hk : Conhecida c) {e : List UInt8 × Nat} (h : sprintfSwitch vazio c f 1 = some e) :
    marcas e.1 = (if c = ch '%' ∨ c = ch 'f' ∨ c = ch 'F' then 1 else 0) ∧ Serve c f := by
  have hserve : (¬ Numerica c) → Serve c f := by
    intro hn
    rw [Serve, if_pos hk]
    exact fun h => absurd h hn
  have hnum (hn : ¬ (c = ch '%' ∨ c = ch 'f' ∨ c = ch 'F')) (str : List UInt8) (hstr : str = [ch '1'])
      (he : (numero f str).map (fun str => (str, 1)) = some e) :
      marcas e.1 = (if c = ch '%' ∨ c = ch 'f' ∨ c = ch 'F' then 1 else 0) ∧ Serve c f := by
    subst hstr
    obtain ⟨str, hs, rfl⟩ := Option.map_eq_some_iff.mp he
    rw [if_neg hn, Serve, if_pos hk]
    exact ⟨marcas_numero hs, fun _ => lt_of_numero (by decide) (Option.isSome_of_eq_some hs)⟩
  rw [sprintfSwitch] at h
  simp only [Conhecida, Numerica, List.mem_cons, List.not_mem_nil, or_false] at hk
  rcases hk with (rfl | rfl | rfl | rfl | rfl) | rfl | rfl | rfl | rfl | rfl | rfl
  · cases h
    exact ⟨rfl, hserve (by decide)⟩
  · cases h
    exact ⟨rfl, hserve (by decide)⟩
  · cases h
    exact ⟨rfl, hserve (by decide)⟩
  · cases h
    exact ⟨rfl, hserve (by decide)⟩
  · cases h
    exact ⟨rfl, hserve (by decide)⟩
  · exact hnum (by decide) (itodec 1) (by decide) h
  · exact hnum (by decide) (itodec 1) (by decide) h
  · exact hnum (by decide) (itoudec 1) (by decide) h
  · exact hnum (by decide) (itox 1) (by decide) h
  · exact hnum (by decide) (itox 1) (by decide) h
  · exact hnum (by decide) (itooct 1) (by decide) h

theorem marcas_printfDefault {e : Efeito} (h : printfDefault c f = some e) : marcas e.out = 1 + marcas [c] := by
  rw [printfDefault_out h, marcas_cons, marcas_append, marcas_append]
  have hzero : marcas (if f.zeroPad then [ch '0'] else []) = 0 := by
    split
    next => rfl
    next => rfl
  have hwidth : marcas (if f.larga then itodec f.width else []) = 0 := by
    split
    next hl => exact marcas_digitos (itodec_digito hl).2
    next => rfl
  rw [hzero, hwidth, Nat.zero_add]
  rfl

/-- What a letter may count in the output of either function, whatever its flags. -/
def peso (c : UInt8) : Nat :=
  if Conhecida c then if c = ch '%' ∨ c = ch 'f' ∨ c = ch 'F' then 1 else 0 else 1 + marcas [c]

theorem marcas_sprintfSwitch {e : List UInt8 × Nat} (h : sprintfSwitch vazio c f 1 = some e) :
    marcas e.1 = peso c := by
  rw [peso]
  by_cases hk : Conhecida c
  · rw [if_pos hk]
    exact (sprintfSwitch_uns hk h).1
  · rw [sprintfSwitch_of_not_conhecida hk] at h
    cases h
    rw [if_neg hk]
    exact marcas_cons (ch '%') [c]

theorem marcas_printfSwitch {e : Efeito} (h : printfSwitch vazio c f 1 = some e) : marcas e.out = peso c := by
  by_cases hk : Conhecida c
  · rw [printfSwitch_of_conhecida hk] at h
    obtain ⟨e', hs, rfl⟩ := Option.map_eq_some_iff.mp h
    exact marcas_sprintfSwitch hs
  · rw [printfSwitch_of_not_conhecida hk] at h
    rw [peso, if_neg hk]
    exact marcas_printfDefault h

theorem marcas_singleton (c : UInt8) : marcas [c] = if c = ch '%' ∨ c = ch 'l' then 1 else 0 := by
  by_cases hc : c = ch '%' ∨ c = ch 'l'
  · simp [marcas, hc]
  · simp [marcas, hc]

theorem le_peso (c : UInt8) : marcas [c] ≤ peso c := by
  rw [peso]
  split
  next hk =>
    rw [marcas_singleton]
    split
    next hc =>
      rcases hc with rfl | rfl
      · exact le_rfl
      · exact absurd hk (by decide)
    next => exact Nat.zero_le _
  next => exact Nat.le_add_left _ _

theorem peso_le (c : UInt8) : peso c ≤ 1 + marcas [c] := by
  rw [peso]
  split
  next =>
    split
    next => exact Nat.le_add_right _ _
    next => exact Nat.zero_le _
  next => exact le_rfl

end Marks

section Tails

/-- How far `printf` may still get ahead in such characters, from where both are in the format. -/
def folga : LePrintf → LeSprintf → Nat
  | .digitos _, .texto => 1
  | .letra _, _ => 1
  | _, _ => 0

/-- Where a character takes `printf`, and how many of the characters counted it puts out. -/
def LePrintf.passo (c : UInt8) : LePrintf → LePrintf × Nat
  | .texto => if c = ch '%' then (.digitos .nenhuma, 0) else (.texto, marcas [c])
  | .digitos f => if Digito c then (.digitos (f.le c), 0) else if c = ch 'l' then (.letra f, 0) else (.texto, peso c)
  | .letra _ => (.texto, peso c)

def LeSprintf.passo (c : UInt8) : LeSprintf → LeSprintf × Nat
  | .texto => if c = ch '%' then (.digitos .nenhuma, 0) else (.texto, marcas [c])
  | .digitos f => if Digito c then (.digitos (f.le c), 0) else (.texto, peso c)

variable {c : UInt8} {format p s : List UInt8} {n : Nat} {mp : LePrintf} {ms : LeSprintf}

theorem printf_passo (h : printfLoop vazio mp (c :: format) uns = some (p, n)) :
    ∃ p' n', printfLoop vazio (mp.passo c).1 format uns = some (p', n') ∧
      marcas p = (mp.passo c).2 + marcas p' := by
  have hswitch (f : Flags) (h : ((printfSwitch vazio c f (uns 0)).bind fun e =>
      (printfLoop vazio .texto format (pula e.words uns)).map fun r => (e.out ++ r.1, e.chars + r.2)) = some (p, n)) :
      ∃ p' n', printfLoop vazio .texto format uns = some (p', n') ∧ marcas p = peso c + marcas p' := by
    obtain ⟨e, he, h⟩ := Option.bind_eq_some_iff.mp h
    obtain ⟨⟨p', n'⟩, hr, heq⟩ := Option.map_eq_some_iff.mp h
    obtain ⟨rfl, -⟩ := Prod.mk.inj heq
    refine ⟨p', n', hr, ?_⟩
    rw [marcas_append, marcas_printfSwitch he]
  cases mp with
  | texto =>
      rw [printfLoop] at h
      rw [LePrintf.passo]
      split at h
      next hc =>
        rw [if_pos hc]
        exact ⟨p, n, h, (Nat.zero_add _).symm⟩
      next hc =>
        rw [if_neg hc]
        obtain ⟨⟨p', n'⟩, hr, heq⟩ := Option.map_eq_some_iff.mp h
        obtain ⟨rfl, -⟩ := Prod.mk.inj heq
        exact ⟨p', n', hr, marcas_cons c p'⟩
  | digitos f =>
      rw [printfLoop] at h
      rw [LePrintf.passo]
      split at h
      next hc =>
        rw [if_pos hc]
        exact ⟨p, n, h, (Nat.zero_add _).symm⟩
      next hc =>
        rw [if_neg hc]
        split at h
        next hl =>
          rw [if_pos hl]
          exact ⟨p, n, h, (Nat.zero_add _).symm⟩
        next hl =>
          rw [if_neg hl]
          exact hswitch f h
  | letra f =>
      rw [printfLoop] at h
      exact hswitch f h

theorem sprintf_passo (h : sprintfLoop vazio ms (c :: format) uns = some s) :
    ∃ s', sprintfLoop vazio (ms.passo c).1 format uns = some s' ∧ marcas s = (ms.passo c).2 + marcas s' := by
  cases ms with
  | texto =>
      rw [sprintfLoop] at h
      rw [LeSprintf.passo]
      split at h
      next hc =>
        rw [if_pos hc]
        exact ⟨s, h, (Nat.zero_add _).symm⟩
      next hc =>
        rw [if_neg hc]
        obtain ⟨s', hr, rfl⟩ := Option.map_eq_some_iff.mp h
        exact ⟨s', hr, marcas_cons c s'⟩
  | digitos f =>
      rw [sprintfLoop] at h
      rw [LeSprintf.passo]
      split at h
      next hc =>
        rw [if_pos hc]
        exact ⟨s, h, (Nat.zero_add _).symm⟩
      next hc =>
        rw [if_neg hc]
        obtain ⟨e, he, h⟩ := Option.bind_eq_some_iff.mp h
        obtain ⟨s', hr, rfl⟩ := Option.map_eq_some_iff.mp h
        refine ⟨s', hr, ?_⟩
        rw [marcas_append, marcas_sprintfSwitch he]

theorem marcas_of_digito (hc : Digito c) : marcas [c] = 0 :=
  marcas_digitos fun _ ha => List.mem_singleton.mp ha ▸ hc

theorem folga_passo (c : UInt8) (mp : LePrintf) (ms : LeSprintf) :
    (mp.passo c).2 + folga (mp.passo c).1 (ms.passo c).1 ≤ (ms.passo c).2 + folga mp ms := by
  by_cases hc : c = ch '%'
  · subst hc
    have hd : ¬ Digito (ch '%') := by decide
    have hl : ch '%' ≠ ch 'l' := by decide
    have hpeso : peso (ch '%') = 1 := by decide
    cases mp <;> cases ms <;>
      simp only [LePrintf.passo, LeSprintf.passo, if_true, if_neg hd, if_neg hl, folga] <;> omega
  by_cases hl : c = ch 'l'
  · subst hl
    have hd : ¬ Digito (ch 'l') := by decide
    have hpeso : peso (ch 'l') = 2 := by decide
    have hmarcas : marcas [ch 'l'] = 1 := by decide
    cases mp <;> cases ms <;>
      simp only [LePrintf.passo, LeSprintf.passo, if_true, if_neg hd, if_neg hc, folga] <;> omega
  by_cases hd : Digito c
  · have hmarcas := marcas_of_digito hd
    have hpeso := peso_le c
    cases mp <;> cases ms <;> simp only [LePrintf.passo, LeSprintf.passo, if_pos hd, if_neg hc, folga] <;> omega
  · have hle := le_peso c
    have hpeso := peso_le c
    cases mp <;> cases ms <;>
      simp only [LePrintf.passo, LeSprintf.passo, if_neg hd, if_neg hc, if_neg hl, folga] <;> omega

theorem marcas_le (hp : printfLoop vazio mp format uns = some (p, n)) (hs : sprintfLoop vazio ms format uns = some s) :
    marcas p ≤ marcas s + folga mp ms := by
  induction format generalizing p s n mp ms with
  | nil =>
      cases mp with
      | texto =>
          cases hp
          exact Nat.zero_le _
      | digitos f => cases hp
      | letra f => cases hp
  | cons c format ih =>
      obtain ⟨p', n', hp', hcount⟩ := printf_passo hp
      obtain ⟨s', hs', hcount'⟩ := sprintf_passo hs
      have hrest := ih hp' hs'
      have hstep := folga_passo c mp ms
      omega

theorem serve_of_saidas {f : Flags} {e : Efeito} {e' : List UInt8 × Nat} (hc : ¬ Digito c)
    (he : printfSwitch vazio c f (uns 0) = some e) (he' : sprintfSwitch vazio c f (uns 0) = some e')
    (heq : e'.1 ++ s = e.out ++ p) : Serve c f ∧ s = p := by
  by_cases hk : Conhecida c
  · rw [printfSwitch_of_conhecida hk] at he
    obtain ⟨e'', he'', rfl⟩ := Option.map_eq_some_iff.mp he
    cases he'.symm.trans he''
    exact ⟨(sprintfSwitch_uns hk he'').2, List.append_cancel_left heq⟩
  · rw [printfSwitch_of_not_conhecida hk] at he
    rw [sprintfSwitch_of_not_conhecida hk] at he'
    cases he'
    have hflags : f.zeroPad = false ∧ ¬ f.larga := by
      by_contra hf
      exact printfDefault_ne hc hf he p s heq.symm
    have hout := printfDefault_out he
    rw [if_neg hflags.2, hflags.1] at hout
    rw [hout] at heq
    rw [Serve, if_neg hk]
    exact ⟨hflags, (List.cons.inj (List.cons.inj heq).2).2⟩

theorem comum_of_loops {m : LeSprintf} (hp : printfLoop vazio m.printf format uns = some (p, n))
    (hs : sprintfLoop vazio m format uns = some p) : Comum m format := by
  induction format generalizing m p n with
  | nil =>
      cases m with
      | texto => trivial
      | digitos f => cases hs
  | cons c format ih =>
      cases m with
      | texto =>
          rw [LeSprintf.printf, printfLoop] at hp
          rw [sprintfLoop] at hs
          rw [Comum]
          split at hp
          next hc =>
            rw [if_pos hc] at hs ⊢
            exact ih hp hs
          next hc =>
            rw [if_neg hc] at hs ⊢
            obtain ⟨⟨p', n'⟩, hp', heq⟩ := Option.map_eq_some_iff.mp hp
            obtain ⟨rfl, -⟩ := Prod.mk.inj heq
            obtain ⟨s', hs', heq⟩ := Option.map_eq_some_iff.mp hs
            have hrest : s' = p' := (List.cons.inj heq).2
            exact ih hp' (hrest ▸ hs')
      | digitos f =>
          rw [LeSprintf.printf, printfLoop] at hp
          rw [sprintfLoop] at hs
          rw [Comum]
          split at hp
          next hc =>
            rw [if_pos hc] at hs ⊢
            exact ih hp hs
          next hc =>
            rw [if_neg hc] at hs ⊢
            obtain ⟨e', he', hs⟩ := Option.bind_eq_some_iff.mp hs
            obtain ⟨s', hs', heq'⟩ := Option.map_eq_some_iff.mp hs
            split at hp
            next hl =>
              subst hl
              have hcount := marcas_le hp hs'
              cases he'
              rw [← heq', marcas_append, show marcas [ch '%', ch 'l'] = 2 from rfl, folga] at hcount
              omega
            next hl =>
              obtain ⟨e, he, hp⟩ := Option.bind_eq_some_iff.mp hp
              obtain ⟨⟨p', n'⟩, hp', heq⟩ := Option.map_eq_some_iff.mp hp
              obtain ⟨rfl, -⟩ := Prod.mk.inj heq
              obtain ⟨hserve, hrest⟩ : Serve c f ∧ s' = p' := serve_of_saidas hc he he' heq'
              exact ⟨hl, hserve, ih hp' (hrest ▸ hs')⟩

end Tails

section Theorem

/-- `sprintf` does what `printf` does for exactly the formats with common directives. -/
theorem sprintf_agrees_iff (format : List UInt8) : Concordam format ↔ Comum .texto format := by
  constructor
  · intro h
    obtain ⟨⟨p, n⟩, hp, hs⟩ := h vazio uns
    obtain ⟨s, hloop, heq⟩ := Option.map_eq_some_iff.mp hs
    obtain ⟨rfl, -⟩ := Prod.mk.inj heq
    exact comum_of_loops hp hloop
  · intro h cstr args
    obtain ⟨out, hs, hp⟩ := loops_agree cstr h args
    refine ⟨(out, out.length), hp, ?_⟩
    rw [sprintf, hs]
    rfl

/-- `"%ld"` -/
theorem long_not_agreed : ¬ Concordam [ch '%', ch 'l', ch 'd'] := by
  intro h
  obtain ⟨r, hp, hs⟩ := h vazio uns
  have hprintf : printf vazio [ch '%', ch 'l', ch 'd'] uns = some ([ch '1'], 1) := by decide
  have hsprintf : sprintf vazio [ch '%', ch 'l', ch 'd'] uns = some ([ch '%', ch 'l', ch 'd'], 3) := by decide
  rw [hprintf] at hp
  rw [hsprintf, ← hp] at hs
  exact absurd hs (by decide)

end Theorem

end Orion68.Stdio
