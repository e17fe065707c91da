import Orion68.Loader.ElfLoaders

namespace Orion68.LoaderElfAgreement

open Files Memory FatFs LoaderReading LoaderElf
open LoaderPic hiding Carga loadSegment loadHeader

section File

/-- The file has the `n` bytes from `ofs` on. -/
def Dentro (f : List UInt8) (ofs : UInt32) (n : ℕ) : Prop := n = 0 ∨ ofs.toNat + n ≤ f.length

/-- The file has all of program header `i`, and of its segment. -/
def Contido (f : List UInt8) (i : ℕ) : Prop :=
  Dentro f ((header f).segmento i) 32 ∧
    ((programHeader f i).type = ptLoad → Dentro f (programHeader f i).offset (programHeader f i).filesz.toNat)

/-- What program header `i` is taken for. -/
def phdrDe (f : List UInt8) (lixo : ℕ → Fin 32 → UInt8) (i : ℕ) : ProgHeader :=
  phdrLido (slice f ((header f).segmento i) 32) (lixo i)

def chamadasSegmento (ph : ProgHeader) : ℕ := if ph.type = ptLoad ∧ 0 < ph.filesz then 2 else 0

/-- The calls of FatFs for `n` program headers from number `i`. -/
def chamadas (f : List UInt8) (lixo : ℕ → Fin 32 → UInt8) : ℕ → ℕ → ℕ
  | 0, _ => 0
  | n + 1, i => 2 + chamadasSegmento (phdrDe f lixo i) + chamadas f lixo n (i + 1)

/-- Those of them up to the read of the last program header. -/
def chamadasAteUltimo (f : List UInt8) (lixo : ℕ → Fin 32 → UInt8) : ℕ → ℕ → ℕ
  | 0, _ => 0
  | 1, _ => 2
  | n + 2, i => 2 + chamadasSegmento (phdrDe f lixo i) + chamadasAteUltimo f lixo (n + 1) (i + 1)

/-- What a program header of the file makes of the memory. -/
def segmentoEm (f : List UInt8) (ph : ProgHeader) (ram : Ram) : Ram :=
  if ph.type = ptLoad then zeraBss ph (write ph.paddr (slice f ph.offset ph.filesz.toNat) ram) else ram

def imagem (f : List UInt8) : ℕ → ℕ → Ram → Ram
  | 0, _, ram => ram
  | n + 1, i, ram => imagem f n (i + 1) (segmentoEm f (programHeader f i) ram)

variable {f : List UInt8}

theorem length_slice_iff {ofs : UInt32} {n : ℕ} : (slice f ofs n).length = n ↔ Dentro f ofs n := by
  rw [slice, List.length_take, List.length_drop, Dentro]
  omega

theorem write_nil (a : UInt32) (m : Ram) : write a [] m = m := by
  funext x
  exact write_of_notMem m (Nat.not_lt_zero _)

theorem phdrLido_of_length {bytes : List UInt8} (lixo : Fin 32 → UInt8) (h : bytes.length = 32) :
    phdrLido bytes lixo = ProgHeader.ofBytes bytes := by
  rw [phdrLido, overwrite, List.drop_eq_nil_of_le, List.append_nil]
  · rfl
  · rw [List.length_ofFn, h, Nat.zero_add]

theorem phdrDe_of_dentro (lixo : ℕ → Fin 32 → UInt8) {i : ℕ} (h : Dentro f ((header f).segmento i) 32) :
    phdrDe f lixo i = programHeader f i :=
  phdrLido_of_length (lixo i) (length_slice_iff.mpr h)

end File

section Rounds

variable {f : List UInt8} {lixo : ℕ → Fin 32 → UInt8} {c : Carga}

def Completas (c : Carga) : Prop := ∀ r ∈ c.leituras, r.Completa

/-- The next `n` calls of FatFs find a drive that does not fail. -/
def SemFalha (l : Leitor) (n : ℕ) : Prop := ∀ j < n, (l.discos j).result = .ok

theorem semFalha_two {l : Leitor} : SemFalha l 2 ↔ (l.discos 0).result = .ok ∧ (l.discos 1).result = .ok := by
  constructor
  · intro h
    exact ⟨h 0 (by decide), h 1 (by decide)⟩
  · rintro ⟨h0, h1⟩ j hj
    obtain rfl | rfl : j = 0 ∨ j = 1 := by omega
    · exact h0
    · exact h1

theorem semFalha_add {l l' : Leitor} {a b : ℕ} (hd : l'.discos = fun j => l.discos (j + a)) :
    SemFalha l (a + b) ↔ SemFalha l a ∧ SemFalha l' b := by
  constructor
  · intro h
    refine ⟨fun j hj => h j (by omega), ?_⟩
    intro j hj
    rw [hd]
    exact h (j + a) (by omega)
  · rintro ⟨ha, hb⟩ j hj
    rcases Nat.lt_or_ge j a with hlt | hge
    · exact ha j hlt
    · have hrest := hb (j - a) (by omega)
      rw [hd] at hrest
      dsimp only at hrest
      rwa [Nat.sub_add_cancel hge] at hrest

/-- What one call of `f_lseek` and one of `f_read` do. -/
structure Le (f : List UInt8) (ofs : UInt32) (n : ℕ) (c : Carga) (fr : FResult) (bytes : List UInt8) (c' : Carga) :
    Prop where
  aberto : Aberto f c'.leitor
  discos : c'.leitor.discos = fun j => c.leitor.discos (j + 2)
  ok_iff : fr = .ok ↔ c.leitor.fil.err = .ok ∧ SemFalha c.leitor 2
  err : c'.leitor.fil.err = .ok ↔ fr = .ok
  bytes : fr = .ok → bytes = slice f ofs n
  ram : c'.ram = c.ram
  completas : Completas c' ↔ Completas c ∧ fr = .ok ∧ Dentro f ofs n

theorem le_spec (h : Aberto f c.leitor) (ofs : UInt32) (n : ℕ) :
    ∃ fr bytes c', c.le ofs n = (fr, bytes, c') ∧ Le f ofs n c fr bytes c' := by
  obtain ⟨fr, bytes, l, hle, hl, hdiscos, hok, herr, hbytes⟩ := h.le ofs n
  refine ⟨fr, bytes, { c with leitor := l, leituras := c.leituras ++ [⟨fr, n, bytes.length⟩] },
    by rw [Carga.le, hle], hl, hdiscos, by rw [hok, semFalha_two], herr, hbytes, rfl, ?_⟩
  simp only [Completas, List.forall_mem_append, List.forall_mem_singleton, Leitura.Completa]
  constructor
  · rintro ⟨hc, hfr, hlen⟩
    rw [hbytes hfr, length_slice_iff] at hlen
    exact ⟨hc, hfr, hlen⟩
  · rintro ⟨hc, hfr, hdentro⟩
    rw [hbytes hfr, length_slice_iff]
    exact ⟨hc, hfr, hdentro⟩

/-- What the loading of one segment does. -/
structure Segmento (f : List UInt8) (ph : ProgHeader) (c c' : Carga) : Prop where
  aberto : Aberto f c'.leitor
  discos : c'.leitor.discos = fun j => c.leitor.discos (j + chamadasSegmento ph)
  err : c'.leitor.fil.err = .ok ↔ SemFalha c.leitor (chamadasSegmento ph)
  completas : Completas c' ↔ Completas c ∧ SemFalha c.leitor (chamadasSegmento ph) ∧
    (ph.type = ptLoad → Dentro f ph.offset ph.filesz.toNat)
  ram : Completas c' → c'.ram = segmentoEm f ph c.ram

theorem carregaSegmento_spec (h : Aberto f c.leitor) (herr : c.leitor.fil.err = .ok) (ph : ProgHeader) :
    Segmento f ph c (if ph.type = ptLoad then carregaSegmento ph c else c) := by
  have hnone {l : Leitor} : SemFalha l 0 := fun j hj => absurd hj (Nat.not_lt_zero j)
  by_cases htype : ph.type = ptLoad
  · rw [if_pos htype, carregaSegmento]
    by_cases hsize : 0 < ph.filesz
    · have hcalls : chamadasSegmento ph = 2 := if_pos ⟨htype, hsize⟩
      obtain ⟨fr, bytes, c', hle, hspec⟩ := le_spec h ph.offset ph.filesz.toNat
      rw [if_pos hsize, hle]
      have hok := hspec.ok_iff.trans (and_iff_right herr)
      constructor
      · exact hspec.aberto
      · rw [hcalls]
        exact hspec.discos
      · rw [hcalls]
        exact hspec.err.trans hok
      · rw [hcalls, ← hok]
        exact hspec.completas.trans (and_congr_right' (and_congr_right' (imp_iff_right htype).symm))
      · intro hc
        have hfr := (hspec.completas.mp hc).2.1
        rw [segmentoEm, if_pos htype, ← hspec.bytes hfr, ← hspec.ram]
    · have hcalls : chamadasSegmento ph = 0 := if_neg fun hboth => hsize hboth.2
      have hzero : ph.filesz.toNat = 0 := Nat.eq_zero_of_not_pos fun hpos => hsize (UInt32.lt_iff_toNat_lt.mpr hpos)
      rw [if_neg hsize]
      constructor
      · exact h
      · rw [hcalls]
        rfl
      · rw [hcalls]
        exact iff_of_true herr hnone
      · rw [hcalls]
        exact (and_iff_left ⟨hnone, fun _ => .inl hzero⟩).symm
      · intro hc
        rw [segmentoEm, if_pos htype, hzero, slice, List.take_zero, write_nil]
  · have hcalls : chamadasSegmento ph = 0 := if_neg fun hboth => htype hboth.1
    rw [if_neg htype]
    constructor
    · exact h
    · rw [hcalls]
      rfl
    · rw [hcalls]
      exact iff_of_true herr hnone
    · rw [hcalls]
      exact (and_iff_left ⟨hnone, fun hload => absurd hload htype⟩).symm
    · intro hc
      rw [segmentoEm, if_neg htype]

structure Rodada (f : List UInt8) (lixo : ℕ → Fin 32 → UInt8) (i : ℕ) (c c' : Carga) : Prop where
  aberto : Aberto f c'.leitor
  discos : c'.leitor.discos = fun j => c.leitor.discos (j + (2 + chamadasSegmento (phdrDe f lixo i)))
  antes : c.leitor.fil.err = .ok ∧ SemFalha c.leitor 2
  err : c'.leitor.fil.err = .ok ↔ SemFalha c.leitor (2 + chamadasSegmento (phdrDe f lixo i))
  completas : Completas c' ↔
    Completas c ∧ SemFalha c.leitor (2 + chamadasSegmento (phdrDe f lixo i)) ∧ Contido f i
  ram : Completas c' → c'.ram = segmentoEm f (programHeader f i) c.ram

theorem segmento_eq (h : ElfHeader) (i : ℕ) : h.phoff + UInt32.ofNat i * h.phentsize.toUInt32 = h.segmento i :=
  UInt32.add_comm _ _

theorem carregaHeaders_succ (lixo : ℕ → Fin 32 → UInt8) (h : Aberto f c.leitor) (n i : ℕ) :
    (∃ c', carregaHeaders (header f) lixo (n + 1) i c = (false, c') ∧
      ¬ (c.leitor.fil.err = .ok ∧ SemFalha c.leitor 2)) ∨
    ∃ c', carregaHeaders (header f) lixo (n + 1) i c = carregaHeaders (header f) lixo n (i + 1) c' ∧
      Rodada f lixo i c c' := by
  obtain ⟨fr, bytes, c₁, hle, hspec⟩ := le_spec h ((header f).segmento i) 32
  rw [carregaHeaders, segmento_eq, hle]
  dsimp only
  by_cases hfr : fr = .ok
  · right
    rw [if_neg (not_not.mpr hfr)]
    obtain rfl := hspec.bytes hfr
    have herr := hspec.err.mpr hfr
    have hantes := hspec.ok_iff.mp hfr
    have hseg := carregaSegmento_spec hspec.aberto herr (phdrDe f lixo i)
    have hcalls := semFalha_add (b := chamadasSegmento (phdrDe f lixo i)) hspec.discos
    refine ⟨_, rfl, hseg.aberto, ?_, hantes, ?_, ?_, ?_⟩
    · refine hseg.discos.trans ?_
      rw [hspec.discos]
      funext j
      exact congrArg c.leitor.discos (by omega)
    · exact hseg.err.trans ((and_iff_right hantes.2).symm.trans hcalls.symm)
    · rw [hcalls]
      constructor
      · intro hc
        obtain ⟨hc₁, hfalha, hsegmento⟩ := hseg.completas.mp hc
        obtain ⟨hc₀, -, hdentro⟩ := hspec.completas.mp hc₁
        rw [phdrDe_of_dentro lixo hdentro] at hsegmento
        exact ⟨hc₀, ⟨hantes.2, hfalha⟩, hdentro, hsegmento⟩
      · rintro ⟨hc₀, ⟨-, hfalha⟩, hdentro, hsegmento⟩
        refine hseg.completas.mpr ⟨hspec.completas.mpr ⟨hc₀, hfr, hdentro⟩, hfalha, ?_⟩
        rwa [phdrDe_of_dentro lixo hdentro]
    · intro hc
      have hdentro := (hspec.completas.mp (hseg.completas.mp hc).1).2.2
      refine (hseg.ram hc).trans ?_
      rw [phdrDe_of_dentro lixo hdentro, hspec.ram]
  · left
    rw [if_pos hfr]
    exact ⟨c₁, rfl, fun hantes => hfr (hspec.ok_iff.mpr hantes)⟩

theorem two_le_chamadasAteUltimo (f : List UInt8) (lixo : ℕ → Fin 32 → UInt8) (n i : ℕ) :
    2 ≤ chamadasAteUltimo f lixo (n + 1) i := by
  cases n with
  | zero => exact Nat.le_refl 2
  | succ n => rw [chamadasAteUltimo, Nat.add_assoc]; exact Nat.le_add_right 2 _

theorem SemFalha.mono {l : Leitor} {a b : ℕ} (h : SemFalha l b) (hab : a ≤ b) : SemFalha l a :=
  fun j hj => h j (Nat.lt_of_lt_of_le hj hab)

/-- The loop ends well when the drive does not fail before the last program header has been read. -/
theorem carregaHeaders_ok_iff (lixo : ℕ → Fin 32 → UInt8) (n i : ℕ) (h : Aberto f c.leitor) :
    (carregaHeaders (header f) lixo n i c).1 = true ↔
      n = 0 ∨ c.leitor.fil.err = .ok ∧ SemFalha c.leitor (chamadasAteUltimo f lixo n i) := by
  induction n generalizing i c with
  | zero => exact iff_of_true rfl (.inl rfl)
  | succ n ih =>
      rcases carregaHeaders_succ lixo h n i with ⟨c', hloop, hantes⟩ | ⟨c', hloop, hrodada⟩
      · rw [hloop]
        refine iff_of_false Bool.false_ne_true ?_
        rintro (hn | ⟨herr, hfalha⟩)
        · exact absurd hn (Nat.succ_ne_zero n)
        · exact hantes ⟨herr, hfalha.mono (two_le_chamadasAteUltimo f lixo n i)⟩
      · rw [hloop, ih (i + 1) hrodada.aberto]
        cases n with
        | zero => exact iff_of_true (.inl rfl) (.inr hrodada.antes)
        | succ n =>
            rw [chamadasAteUltimo, semFalha_add hrodada.discos, ← hrodada.err]
            simp only [Nat.add_eq_zero_iff, Nat.one_ne_zero, and_false, false_or, hrodada.antes.1, true_and]

/-- When the loop ends well, its reads are complete exactly when the drive has not failed and the
file has all of them. -/
theorem carregaHeaders_completas_iff (lixo : ℕ → Fin 32 → UInt8) (n i : ℕ) (h : Aberto f c.leitor)
    (hok : (carregaHeaders (header f) lixo n i c).1 = true) :
    Completas (carregaHeaders (header f) lixo n i c).2 ↔
      Completas c ∧ SemFalha c.leitor (chamadas f lixo n i) ∧ ∀ k, i ≤ k → k < i + n → Contido f k := by
  induction n generalizing i c with
  | zero =>
      refine (and_iff_left ⟨fun j hj => absurd hj (Nat.not_lt_zero j), ?_⟩).symm
      intro k hk hlt
      omega
  | succ n ih =>
      rcases carregaHeaders_succ lixo h n i with ⟨c', hloop, -⟩ | ⟨c', hloop, hrodada⟩
      · rw [hloop] at hok
        cases hok
      · rw [hloop] at hok ⊢
        rw [ih (i + 1) hrodada.aberto hok, hrodada.completas, chamadas, semFalha_add hrodada.discos]
        have hcontido : (∀ k, i ≤ k → k < i + (n + 1) → Contido f k) ↔
            Contido f i ∧ ∀ k, i + 1 ≤ k → k < i + 1 + n → Contido f k := by
          constructor
          · intro hall
            exact ⟨hall i (Nat.le_refl i) (by omega), fun k hk hlt => hall k (by omega) (by omega)⟩
          · rintro ⟨hi, hrest⟩ k hk hlt
            rcases Nat.eq_or_lt_of_le hk with rfl | hgt
            · exact hi
            · exact hrest k hgt (by omega)
        rw [hcontido]
        tauto

theorem carregaHeaders_ram (lixo : ℕ → Fin 32 → UInt8) (n i : ℕ) (h : Aberto f c.leitor)
    (hok : (carregaHeaders (header f) lixo n i c).1 = true)
    (hc : Completas (carregaHeaders (header f) lixo n i c).2) :
    (carregaHeaders (header f) lixo n i c).2.ram = imagem f n i c.ram := by
  induction n generalizing i c with
  | zero => rfl
  | succ n ih =>
      rcases carregaHeaders_succ lixo h n i with ⟨c', hloop, -⟩ | ⟨c', hloop, hrodada⟩
      · rw [hloop] at hok
        cases hok
      · rw [hloop] at hok hc ⊢
        have hc' := ((carregaHeaders_completas_iff lixo n (i + 1) hrodada.aberto hok).mp hc).1
        rw [ih (i + 1) hrodada.aberto hok hc, hrodada.ram hc', imagem]

end Rounds

section LoadElf

variable {f : List UInt8} {l l' l'' : Leitor}

/-- Nothing has failed, and the next `n` calls of FatFs do not fail. -/
def Responde (l : Leitor) (n : ℕ) : Prop := l.fil.err = .ok ∧ SemFalha l n

/-- After `n` calls that have not failed. -/
structure Segue (f : List UInt8) (l : Leitor) (n : ℕ) (l' : Leitor) : Prop where
  aberto : Aberto f l'
  discos : l'.discos = fun j => l.discos (j + n)
  ok : l'.fil.err = .ok

theorem Segue.trans {a b : ℕ} (h : Segue f l a l') (h' : Segue f l' b l'') : Segue f l (a + b) l'' := by
  refine ⟨h'.aberto, ?_, h'.ok⟩
  rw [h'.discos, h.discos]
  funext j
  exact congrArg l.discos (by omega)

theorem Segue.responde_add {a : ℕ} (h : Segue f l a l') (hl : l.fil.err = .ok) (b : ℕ) :
    Responde l (a + b) ↔ SemFalha l a ∧ Responde l' b := by
  rw [Responde, Responde, semFalha_add h.discos]
  constructor
  · rintro ⟨-, ha, hb⟩
    exact ⟨ha, h.ok, hb⟩
  · rintro ⟨ha, -, hb⟩
    exact ⟨hl, ha, hb⟩

theorem Responde.mono {a b : ℕ} (h : Responde l b) (hab : a ≤ b) : Responde l a := ⟨h.1, h.2.mono hab⟩

theorem leTudo_cases (h : Aberto f l) (ofs : UInt32) (n : ℕ) :
    (Responde l 2 ∧ Dentro f ofs n ∧ ∃ l', l.leTudo ofs n = (some (slice f ofs n), l') ∧ Segue f l 2 l') ∨
      ¬ (Responde l 2 ∧ Dentro f ofs n) ∧ ∃ l', l.leTudo ofs n = (none, l') := by
  obtain ⟨fr, bytes, l₁, hle, h₁, hdiscos, hok, herr, hbytes⟩ := h.le ofs n
  rw [← semFalha_two] at hok
  rw [Leitor.leTudo, hle]
  dsimp only
  by_cases hread : fr = .ok ∧ bytes.length = n
  · obtain ⟨rfl, hlen⟩ := hread
    obtain rfl := hbytes rfl
    rw [if_pos ⟨rfl, hlen⟩]
    exact .inl ⟨hok.mp rfl, length_slice_iff.mp hlen, l₁, rfl, h₁, hdiscos, herr.mpr rfl⟩
  · rw [if_neg hread]
    refine .inr ⟨?_, l₁, rfl⟩
    rintro ⟨hresponde, hdentro⟩
    have hfr := hok.mpr hresponde
    exact hread ⟨hfr, hbytes hfr ▸ length_slice_iff.mpr hdentro⟩

theorem loadSegment_cases (h : Aberto f l) (ph : ProgHeader) (ram : Ram) :
    (Responde l 2 ∧ Dentro f ph.offset ph.filesz.toNat ∧ ∃ l',
        loadSegment ph l ram = (none, l', zeraBss ph (write ph.paddr (slice f ph.offset ph.filesz.toNat) ram)) ∧
        Segue f l 2 l') ∨
      ¬ (Responde l 2 ∧ Dentro f ph.offset ph.filesz.toNat) ∧
        ∃ erro l' ram', loadSegment ph l ram = (some erro, l', ram') := by
  obtain ⟨fr, bytes, l₁, hle, h₁, hdiscos, hok, herr, hbytes⟩ := h.le ph.offset ph.filesz.toNat
  rw [← semFalha_two] at hok
  rw [loadSegment, hle]
  dsimp only
  by_cases hread : fr ≠ .ok ∨ bytes.length ≠ ph.filesz.toNat
  · rw [if_pos hread]
    refine .inr ⟨?_, _, l₁, _, rfl⟩
    rintro ⟨hresponde, hdentro⟩
    have hfr := hok.mpr hresponde
    rcases hread with hne | hne
    · exact hne hfr
    · exact hne (hbytes hfr ▸ length_slice_iff.mpr hdentro)
  · rw [if_neg hread]
    rw [not_or, not_not, not_not] at hread
    obtain ⟨rfl, hlen⟩ := hread
    obtain rfl := hbytes rfl
    exact .inl ⟨hok.mp rfl, length_slice_iff.mp hlen, l₁, rfl, h₁, hdiscos, herr.mpr rfl⟩

def Recusado (ph : ProgHeader) : Prop := ph.type = ptShlib ∨ ph.type = ptDynamic ∨ ph.type = ptInterp

/-- The file has all of program header `i` and of its segment, and it is not one that is refused. -/
def HeaderAceito (f : List UInt8) (i : ℕ) : Prop := Contido f i ∧ ¬ Recusado (programHeader f i)

/-- The calls of FatFs for program header `i`. -/
def chamadasHeader (f : List UInt8) (i : ℕ) : ℕ := if (programHeader f i).type = ptLoad then 2 + 2 else 2

theorem loadHeader_of_read {h : ElfHeader} {i : ℕ} {b : List UInt8} (hread : l.leTudo (h.segmento i) 32 = (some b, l'))
    (ram : Ram) :
    ((ProgHeader.ofBytes b).type = ptLoad → loadHeader h i l ram = loadSegment (ProgHeader.ofBytes b) l' ram) ∧
      (Recusado (ProgHeader.ofBytes b) → ∃ erro, loadHeader h i l ram = (some erro, l', ram)) ∧
      ((ProgHeader.ofBytes b).type ≠ ptLoad → ¬ Recusado (ProgHeader.ofBytes b) →
        loadHeader h i l ram = (none, l', ram)) := by
  rw [loadHeader, hread]
  dsimp only
  generalize ProgHeader.ofBytes b = ph
  refine ⟨?_, ?_, ?_⟩
  · intro hload
    rw [hload]
    rfl
  · rintro (htype | htype | htype)
    all_goals
      rw [htype]
      exact ⟨_, rfl⟩
  · intro hload hkept
    rw [Recusado, not_or, not_or] at hkept
    obtain ⟨hshlib, hdynamic, hinterp⟩ := hkept
    rw [if_neg (not_or.mpr ⟨hshlib, hdynamic⟩), if_neg hload, if_neg hinterp, ite_self]

theorem recusado_load {ph : ProgHeader} (h : ph.type = ptLoad) : ¬ Recusado ph := by
  rw [Recusado, h]
  decide

theorem loadHeader_cases (h : Aberto f l) (i : ℕ) (ram : Ram) :
    (Responde l (chamadasHeader f i) ∧ HeaderAceito f i ∧ ∃ l',
        loadHeader (header f) i l ram = (none, l', segmentoEm f (programHeader f i) ram) ∧
        Segue f l (chamadasHeader f i) l') ∨
      ¬ (Responde l (chamadasHeader f i) ∧ HeaderAceito f i) ∧
        ∃ erro l' ram', loadHeader (header f) i l ram = (some erro, l', ram') := by
  rcases leTudo_cases h ((header f).segmento i) 32 with ⟨hresponde, hdentro, l₁, hread, hsegue⟩ | ⟨hnot, l₁, hread⟩
  · obtain ⟨hload, hrefused, hother⟩ := loadHeader_of_read hread ram
    change ((programHeader f i).type = ptLoad → _ = loadSegment (programHeader f i) l₁ ram) at hload
    by_cases htype : (programHeader f i).type = ptLoad
    · have hcalls : chamadasHeader f i = 2 + 2 := if_pos htype
      rw [hload htype, hcalls, segmentoEm, if_pos htype]
      rcases loadSegment_cases hsegue.aberto (programHeader f i) ram with
        ⟨hresponde', hsegment, l₂, hok, hsegue'⟩ | ⟨hnot, hfails⟩
      · have hboth := (hsegue.responde_add hresponde.1 2).mpr ⟨hresponde.2, hresponde'⟩
        exact .inl ⟨hboth, ⟨⟨hdentro, fun _ => hsegment⟩, recusado_load htype⟩, l₂, hok, hsegue.trans hsegue'⟩
      · refine .inr ⟨?_, hfails⟩
        rintro ⟨hboth, ⟨-, hsegment⟩, -⟩
        exact hnot ⟨((hsegue.responde_add hresponde.1 2).mp hboth).2, hsegment htype⟩
    · have hcalls : chamadasHeader f i = 2 := if_neg htype
      rw [hcalls, segmentoEm, if_neg htype]
      by_cases hkept : Recusado (programHeader f i)
      · obtain ⟨erro, herro⟩ := hrefused hkept
        exact .inr ⟨fun hall => hall.2.2 hkept, erro, l₁, ram, herro⟩
      · exact .inl ⟨hresponde, ⟨⟨hdentro, fun hload => absurd hload htype⟩, hkept⟩, l₁, hother htype hkept, hsegue⟩
  · have htwo : 2 ≤ chamadasHeader f i := by
      rw [chamadasHeader]
      split <;> decide
    refine .inr ⟨fun hall => hnot ⟨hall.1.mono htwo, hall.2.1.1⟩, "Cannot read ELF program header.\n", l₁, ram, ?_⟩
    rw [loadHeader, hread]

/-- The calls of FatFs for `n` program headers from number `i`. -/
def chamadasHeaders (f : List UInt8) : ℕ → ℕ → ℕ
  | 0, _ => 0
  | n + 1, i => chamadasHeader f i + chamadasHeaders f n (i + 1)

theorem loadHeaders_cases (n i : ℕ) (h : Aberto f l) (herr : l.fil.err = .ok) (ram : Ram) :
    (SemFalha l (chamadasHeaders f n i) ∧ (∀ k, i ≤ k → k < i + n → HeaderAceito f k) ∧
        ∃ l', loadHeaders (header f) n i l ram = (none, l', imagem f n i ram)) ∨
      ¬ (SemFalha l (chamadasHeaders f n i) ∧ ∀ k, i ≤ k → k < i + n → HeaderAceito f k) ∧
        ∃ erro l' ram', loadHeaders (header f) n i l ram = (some erro, l', ram') := by
  induction n generalizing i l ram with
  | zero =>
      refine .inl ⟨fun j hj => absurd hj (Nat.not_lt_zero j), ?_, l, rfl⟩
      intro k hk hlt
      omega
  | succ n ih =>
      rw [loadHeaders, chamadasHeaders]
      rcases loadHeader_cases h i ram with ⟨hresponde, haceito, l₁, hround, hsegue⟩ | ⟨hnot, erro, l₁, ram₁, hround⟩
      · rw [hround, imagem, semFalha_add hsegue.discos]
        dsimp only
        rcases ih (i + 1) hsegue.aberto hsegue.ok (segmentoEm f (programHeader f i) ram) with
          ⟨hfalha, hrest, hloop⟩ | ⟨hnot, hloop⟩
        · refine .inl ⟨⟨hresponde.2, hfalha⟩, ?_, hloop⟩
          intro k hk hlt
          rcases Nat.eq_or_lt_of_le hk with rfl | hgt
          · exact haceito
          · exact hrest k hgt (by omega)
        · refine .inr ⟨?_, hloop⟩
          rintro ⟨⟨-, hfalha⟩, hall⟩
          exact hnot ⟨hfalha, fun k hk hlt => hall k (by omega) (by omega)⟩
      · rw [hround]
        refine .inr ⟨?_, erro, l₁, ram₁, rfl⟩
        rintro ⟨hfalha, hall⟩
        exact hnot ⟨⟨herr, hfalha.mono (Nat.le_add_right _ _)⟩, hall i (Nat.le_refl i) (by omega)⟩

/-- The file has a header that passes its checks, and all of its program headers are accepted. -/
def ElfAceito (f : List UInt8) : Prop :=
  Dentro f 0 52 ∧ erroHeader (f.take 52) = none ∧ ∀ i < (header f).phnum.toNat, HeaderAceito f i

def chamadasElf (f : List UInt8) : ℕ := 2 + chamadasHeaders f (header f).phnum.toNat 0

theorem loadElfExecutable_cases (h : Aberto f l) (ram : Ram) :
    (Responde l (chamadasElf f) ∧ ElfAceito f ∧ ∃ l',
        loadElfExecutable l ram = (.ok (header f).entry, l', imagem f (header f).phnum.toNat 0 ram)) ∨
      ¬ (Responde l (chamadasElf f) ∧ ElfAceito f) ∧
        ∃ erro l' ram', loadElfExecutable l ram = (.error erro, l', ram') := by
  have hbytes : slice f 0 52 = f.take 52 := rfl
  rw [loadElfExecutable]
  rcases leTudo_cases h 0 52 with ⟨hresponde, hdentro, l₁, hread, hsegue⟩ | ⟨hnot, l₁, hread⟩
  · rw [hread, hbytes, chamadasElf, hsegue.responde_add hresponde.1]
    dsimp only
    cases herro : erroHeader (f.take 52) with
    | some erro =>
        refine .inr ⟨?_, erro, l₁, ram, rfl⟩
        rintro ⟨-, -, hnone, -⟩
        rw [herro] at hnone
        cases hnone
    | none =>
        dsimp only
        rw [← header]
        rcases loadHeaders_cases (header f).phnum.toNat 0 hsegue.aberto hsegue.ok ram with
          ⟨hfalha, hall, l₂, hloop⟩ | ⟨hnot, erro, l₂, ram₂, hloop⟩
        · rw [hloop]
          exact .inl ⟨⟨hresponde.2, hsegue.ok, hfalha⟩,
            ⟨hdentro, herro, fun k hk => hall k (Nat.zero_le k) (by omega)⟩, l₂, rfl⟩
        · rw [hloop]
          refine .inr ⟨?_, erro, l₂, ram₂, rfl⟩
          rintro ⟨⟨-, -, hfalha⟩, -, -, hall⟩
          exact hnot ⟨hfalha, fun k _ hk => hall k (by omega)⟩
  · rw [hread]
    refine .inr ⟨?_, _, l₁, ram, rfl⟩
    rintro ⟨hresponde, hdentro, -⟩
    exact hnot ⟨hresponde.mono (Nat.le_add_right 2 _), hdentro⟩

theorem loadElfExecutable_accepted (h : Aberto f l) (ram : Ram) {entry : UInt32} {ram' : Ram}
    (hload : loadElfExecutable l ram = (.ok entry, l', ram')) :
    entry = (header f).entry ∧ ram' = imagem f (header f).phnum.toNat 0 ram := by
  rcases loadElfExecutable_cases h ram with ⟨-, -, l₁, hok⟩ | ⟨-, erro, l₁, ram₁, herro⟩
  · rw [hok] at hload
    cases hload
    exact ⟨rfl, rfl⟩
  · rw [herro] at hload
    cases hload

end LoadElf

section Agreement

variable (caminho : Path) (v : Volume) (discos : ℕ → Disk) (lixo : ℕ → Fin 32 → UInt8) (ram : Ram)

def conteudo : List UInt8 := (v caminho).data.val

/-- There is a file with a header that `carregar_elf32_fatfs` does not refuse. -/
def Aceita : Prop :=
  openError faRead (v caminho) = .ok ∧ 52 ≤ (conteudo caminho v).length ∧
    valida ((conteudo caminho v).take 52) = true

/-- When there is an entry, everything has been read, and `load_elf_executable` would have left the
same memory if it accepts the file. -/
def Concorda : Prop :=
  (carregarElf32Fatfs caminho v discos lixo ram).1 ≠ 0 →
    Completas (carregarElf32Fatfs caminho v discos lixo ram).2 ∧
      ∀ l l' entry ram', Aberto (conteudo caminho v) l → loadElfExecutable l ram = (.ok entry, l', ram') →
        entry = (carregarElf32Fatfs caminho v discos lixo ram).1 ∧
          ram' = (carregarElf32Fatfs caminho v discos lixo ram).2.ram

/-- The drive fails before the last program header has been read. -/
def FalhaNotada : Prop :=
  ∃ j < 2 + chamadasAteUltimo (conteudo caminho v) lixo (header (conteudo caminho v)).phnum.toNat 0,
    (discos j).result ≠ .ok

/-- The drive does not fail, and the file has all its program headers and segments. -/
def Integro : Prop :=
  (∀ j < 2 + chamadas (conteudo caminho v) lixo (header (conteudo caminho v)).phnum.toNat 0,
    (discos j).result = .ok) ∧
  ∀ i < (header (conteudo caminho v)).phnum.toNat, Contido (conteudo caminho v) i

/-- When the loop over the program headers starts. -/
structure Inicio (c : Carga) : Prop where
  aberto : Aberto (conteudo caminho v) c.leitor
  discos : c.leitor.discos = fun j => discos (j + 2)
  err : c.leitor.fil.err = .ok
  ram : c.ram = ram
  completas : Completas c

variable {caminho v discos lixo ram}

theorem fOpen_read {disk : Disk} (h : openError faRead (v caminho) = .ok) (hd : disk.result = .ok) :
    fOpen disk caminho faRead v = (.ok, ⟨caminho, faRead, 0, .ok, true⟩, v) := by
  have hmode : faRead &&& 0x3F = faRead := by decide
  have hentry : openEntry faRead (v caminho) = v caminho := by
    cases hv : v caminho with
    | none =>
        rw [hv] at h
        cases h
    | file readOnly data => rfl
    | dir => rfl
  rw [fOpen, hmode, if_pos hd, h, if_pos rfl]
  dsimp only
  rw [hentry, Function.update_eq_self, if_neg (by decide)]

theorem fOpen_read_error {disk : Disk} (h : ¬ (openError faRead (v caminho) = .ok ∧ disk.result = .ok)) :
    (fOpen disk caminho faRead v).1 ≠ .ok := by
  intro hok
  rw [fOpen, show faRead &&& 0x3F = faRead by decide] at hok
  by_cases hd : disk.result = .ok
  · have herr : openError faRead (v caminho) ≠ .ok := fun he => h ⟨he, hd⟩
    rw [if_pos hd, if_neg herr] at hok
    exact herr hok
  · rw [if_neg hd, if_neg hd] at hok
    exact hd hok

theorem fRead_header (caminho : Path) (v : Volume) (disk : Disk) :
    ∃ b fil, fRead disk 52 ⟨caminho, faRead, 0, .ok, true⟩ v = (disk.result, b, fil) ∧
      (disk.result = .ok → b = (conteudo caminho v).take 52) ∧ fil.err = disk.result ∧
      ∀ d, Aberto (conteudo caminho v) ⟨fil, v, d⟩ := by
  have hread : (Fil.flag ⟨caminho, faRead, 0, .ok, true⟩) &&& faRead ≠ 0 := by
    change faRead &&& faRead ≠ 0
    decide
  have hval : validate ⟨caminho, faRead, 0, .ok, true⟩ = .ok := rfl
  rw [fRead, hval, if_neg (not_not.mpr rfl), if_neg hread]
  refine ⟨_, _, rfl, ?_, rfl, fun _ => ⟨rfl, hread, ?_, rfl⟩⟩
  · intro hd
    rw [if_pos hd]
    rfl
  · change faRead &&& faWrite = 0
    decide

theorem carregar_cases (caminho : Path) (v : Volume) (discos : ℕ → Disk) (lixo : ℕ → Fin 32 → UInt8) (ram : Ram) :
    (carregarElf32Fatfs caminho v discos lixo ram).1 = 0 ∧
      ¬ (Aceita caminho v ∧ (discos 0).result = .ok ∧ (discos 1).result = .ok) ∨
    (Aceita caminho v ∧ (discos 0).result = .ok ∧ (discos 1).result = .ok) ∧
      ∃ c, Inicio caminho v discos ram c ∧ carregarElf32Fatfs caminho v discos lixo ram =
        (if (carregaHeaders (header (conteudo caminho v)) lixo (header (conteudo caminho v)).phnum.toNat 0 c).1 then
          (header (conteudo caminho v)).entry else 0,
        (carregaHeaders (header (conteudo caminho v)) lixo (header (conteudo caminho v)).phnum.toNat 0 c).2) := by
  by_cases hopen : openError faRead (v caminho) = .ok ∧ (discos 0).result = .ok
  · obtain ⟨b, fil, hread, hb, herr, haberto⟩ := fRead_header caminho v (discos 1)
    rw [carregarElf32Fatfs, fOpen_read hopen.1 hopen.2]
    dsimp only
    rw [if_neg (not_not.mpr rfl), hread]
    dsimp only
    by_cases hlen : (discos 1).result ≠ .ok ∨ b.length < 52
    · left
      rw [if_pos hlen]
      refine ⟨rfl, ?_⟩
      rintro ⟨⟨-, hsize, -⟩, -, hd⟩
      rcases hlen with hlen | hlen
      · exact hlen hd
      · rw [hb hd, List.length_take] at hlen
        omega
    · rw [if_neg hlen]
      rw [not_or, not_not, Nat.not_lt] at hlen
      obtain ⟨hd, hlen⟩ := hlen
      obtain rfl := hb hd
      rw [List.length_take] at hlen
      by_cases hvalida : valida ((conteudo caminho v).take 52) = false
      · left
        rw [if_pos hvalida]
        refine ⟨rfl, ?_⟩
        rintro ⟨⟨-, -, hv⟩, -⟩
        rw [hvalida] at hv
        cases hv
      · right
        rw [if_neg hvalida]
        refine ⟨⟨⟨hopen.1, by omega, Bool.eq_true_of_not_eq_false hvalida⟩, hopen.2, hd⟩, _, ?_, rfl⟩
        refine ⟨haberto _, rfl, herr.trans hd, rfl, ?_⟩
        intro r hr
        rw [List.mem_singleton] at hr
        rw [hr]
        exact ⟨hd, List.length_take.trans (Nat.min_eq_left (by omega))⟩
  · left
    rw [carregarElf32Fatfs]
    dsimp only
    rw [if_pos (fOpen_read_error hopen)]
    exact ⟨rfl, fun hall => hopen ⟨hall.1.1, hall.2.1⟩⟩

theorem semFalha_inicio {c : Carga} (h : Inicio caminho v discos ram c) {n : ℕ}
    (hd : (discos 0).result = .ok ∧ (discos 1).result = .ok) :
    SemFalha c.leitor n ↔ ∀ j < 2 + n, (discos j).result = .ok := by
  have hadd := semFalha_add (l := ⟨c.leitor.fil, v, discos⟩) (b := n) h.discos
  rw [semFalha_two, and_iff_right hd] at hadd
  exact hadd.symm

theorem loop_ok_iff {c : Carga} (lixo : ℕ → Fin 32 → UInt8) (h : Inicio caminho v discos ram c) (n : ℕ) :
    (carregaHeaders (header (conteudo caminho v)) lixo n 0 c).1 = true ↔
      SemFalha c.leitor (chamadasAteUltimo (conteudo caminho v) lixo n 0) := by
  rw [carregaHeaders_ok_iff lixo n 0 h.aberto, and_iff_right h.err]
  refine ⟨?_, .inr⟩
  rintro (rfl | hfalha)
  · exact fun j hj => absurd hj (Nat.not_lt_zero j)
  · exact hfalha

/-- The two loaders agree exactly when the header is refused, its entry is 0, the drive is seen to
fail, or the drive does not fail and the file has everything. -/
theorem loaders_agree_iff (caminho : Path) (v : Volume) (discos : ℕ → Disk) (lixo : ℕ → Fin 32 → UInt8) (ram : Ram) :
    Concorda caminho v discos lixo ram ↔
      ¬ Aceita caminho v ∨ (header (conteudo caminho v)).entry = 0 ∨ FalhaNotada caminho v discos lixo ∨
        Integro caminho v discos lixo := by
  rcases carregar_cases caminho v discos lixo ram with ⟨hzero, hno⟩ | ⟨⟨haceita, hd⟩, c, hinicio, heq⟩
  · refine iff_of_true (fun hne => absurd hzero hne) ?_
    by_cases haceita : Aceita caminho v
    · right; right; left
      by_cases h0 : (discos 0).result = .ok
      · exact ⟨1, by omega, fun h1 => hno ⟨haceita, h0, h1⟩⟩
      · exact ⟨0, by omega, h0⟩
    · exact .inl haceita
  · have hok := loop_ok_iff lixo hinicio (header (conteudo caminho v)).phnum.toNat
    have hcompletas := carregaHeaders_completas_iff lixo (header (conteudo caminho v)).phnum.toNat 0
      hinicio.aberto
    have hram := carregaHeaders_ram lixo (header (conteudo caminho v)).phnum.toNat 0 hinicio.aberto
    rw [semFalha_inicio hinicio hd] at hok hcompletas
    rw [Concorda, heq]
    dsimp only
    by_cases hloop : (carregaHeaders (header (conteudo caminho v)) lixo
        (header (conteudo caminho v)).phnum.toNat 0 c).1 = true
    · have hintegro : Integro caminho v discos lixo ↔ Completas (carregaHeaders (header (conteudo caminho v)) lixo
          (header (conteudo caminho v)).phnum.toNat 0 c).2 := by
        rw [hcompletas hloop, and_iff_right hinicio.completas, Integro]
        simp only [Nat.zero_le, forall_const, Nat.zero_add]
      have hnotada : ¬ FalhaNotada caminho v discos lixo := by
        rintro ⟨j, hj, hfalha⟩
        exact hfalha (hok.mp hloop j hj)
      rw [if_pos hloop, or_iff_right (not_not.mpr haceita), or_iff_right hnotada, hintegro, or_iff_not_imp_left]
      apply imp_congr_right
      intro _
      refine ⟨And.left, fun hc => ⟨hc, ?_⟩⟩
      intro l l' entry ram' hl hload
      rw [hram hloop hc, hinicio.ram]
      exact loadElfExecutable_accepted hl ram hload
    · rw [if_neg hloop]
      refine iff_of_true (fun hne => absurd rfl hne) ?_
      right; right; left
      by_contra hnone
      apply hloop
      rw [hok]
      intro j hj
      by_contra hfalha
      exact hnone ⟨j, hj, hfalha⟩

/-- A header alone, of a program with one program header, and an entry at 0x2000. -/
def soHeader : Bytes :=
  ⟨[0x7F, 0x45, 0x4C, 0x46, 1, 2, 1, 0, 0, 0, 0, 0, 0, 0, 0, 0, 0, 2, 0, 4, 0, 0, 0, 1, 0, 0, 0x20, 0, 0, 0, 0, 52,
    0, 0, 0, 0, 0, 0, 0, 0, 0, 52, 0, 32, 0, 1, 0, 0, 0, 0, 0, 0], by decide⟩

/-- The program header is not in the file, and yet the program is started. -/
theorem truncated_file_starts :
    ¬ Concorda [] (fun _ => .file false soHeader) (fun _ => ⟨.ok, 0, fun _ => 0⟩) (fun _ _ => 0) (fun _ => 0) := by
  intro h
  have hentry : (carregarElf32Fatfs [] (fun _ => .file false soHeader) (fun _ => ⟨.ok, 0, fun _ => 0⟩)
      (fun _ _ => 0) (fun _ => 0)).1 = 0x2000 := by decide
  have hlog := (h (by rw [hentry]; decide)).1 ⟨.ok, 32, 0⟩ (by decide)
  exact absurd hlog (by decide)

end Agreement

end Orion68.LoaderElfAgreement
