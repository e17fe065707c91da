import Orion68.Loader.Image

namespace Orion68.DebugReads

open Memory FatFs Shell LoaderPic LoaderPatches LoaderBounds LoaderReading LoaderTables LoaderImage

section Got

/-- `got` after the search behind the second segment; without a value it is `none`. -/
def atribuiGot (h : ElfHeader) (base : UInt32) (got : Option UInt32) (c : Carga) : Option UInt32 :=
  match (findGotSection h c.leitor).1 with
  | some (gotAddr, _) => some (base + gotAddr)
  | none => got

/-- The locals of the loop: `pt_load_seen`, `got` and `got_addr_saved`. -/
structure Locais where
  seen : ℕ
  got : Option UInt32
  gotAddr : UInt32

def loadHeaderGot (h : ElfHeader) (base : UInt32) (progIndex : ℕ) (v : Locais) (c : Carga) : Option Locais × Carga :=
  match c.leitor.leTudo (h.segmento progIndex) 32 with
  | (none, l) => (none, { c with leitor := l })
  | (some b, l) =>
      let ph := ProgHeader.ofBytes b
      let c := { c with leitor := l }
      if ph.type = ptLoad then
        let (ok, c) := loadSegment base ph c
        if ok = false then (none, c)
        else if v.seen = 1 then
          let r := patchData h base v.gotAddr c
          (some ⟨v.seen + 1, atribuiGot h base v.got c, r.1⟩, r.2)
        else (some { v with seen := v.seen + 1 }, c)
      else if ph.type = ptDynamic ∨ ph.type = ptShlib ∨ ph.type = ptInterp then (none, c)
      else (some v, c)

def loadLoopGot (h : ElfHeader) (base : UInt32) : ℕ → ℕ → Locais → Carga → Option Locais × Carga
  | 0, _, v, c => (some v, c)
  | n + 1, progIndex, v, c =>
      match loadHeaderGot h base progIndex v c with
      | (none, c) => (none, c)
      | (some v, c) => loadLoopGot h base n (progIndex + 1) v c

/-- A use of a variable that has no value, or of the memory. -/
inductive Uso
  | indefinida
  | acessa (s : Span)
  deriving DecidableEq

/-- What is printed after the loop reads the word at `got + 28`, and nine bytes from where it leads. -/
def depura (got : Option UInt32) (m : Ram) : List Uso :=
  match got with
  | none => [.indefinida]
  | some got =>
      let lc0SlotAddr := got + 28
      [.acessa ⟨lc0SlotAddr, 4⟩, .acessa ⟨load32 m lc0SlotAddr, 9⟩]

/-- `loadPicElf`, with what is printed. -/
def loadPicElfUsos (base : UInt32) (c : Carga) : (Option (UInt32 × UInt32) × Carga) × List Uso :=
  match c.leitor.leTudo 0 52 with
  | (none, l) => ((none, { c with leitor := l }), [])
  | (some b, l) =>
      let h := ElfHeader.ofBytes b
      if aceita b then
        match loadLoopGot h base h.phnum.toNat 0 ⟨0, none, 0⟩ { c with leitor := l } with
        | (some v, c) =>
            if v.seen = 2 then ((some (base + h.entry, base + v.gotAddr), c), depura v.got c.ram) else ((none, c), [])
        | (none, c) => ((none, c), [])
      else ((none, { c with leitor := l }), [])

def standaloneUsos (t : SlotTable) (c : Carga) : (Desfecho × SlotTable × Carga) × List Uso :=
  match slotsAlloc t with
  | (none, t) => ((.semSlot, t, c), [])
  | (some i, t) =>
      match loadPicElfUsos (slotsBaseAddr i) c with
      | ((some (entry, a5), c), usos) => ((.chama entry a5, t, c), usos)
      | ((none, c), usos) => ((.falha, slotsFree i t, c), usos)

variable {h : ElfHeader} {base : UInt32} {c : Carga}

theorem loadHeaderGot_eq (i : ℕ) (v : Locais) :
    loadHeader h base i v.seen v.gotAddr c =
      ((loadHeaderGot h base i v c).1.map fun v => (v.seen, v.gotAddr), (loadHeaderGot h base i v c).2) := by
  rw [loadHeader, loadHeaderGot]
  rcases c.leitor.leTudo (h.segmento i) 32 with ⟨_ | b, l⟩
  · rfl
  · dsimp only
    split
    · split
      · rfl
      · split <;> rw [Option.map_some]
    · split <;> rfl

theorem loadLoopGot_eq (n i : ℕ) (v : Locais) :
    loadLoop h base n i v.seen v.gotAddr c =
      ((loadLoopGot h base n i v c).1.map fun v => (v.seen, v.gotAddr), (loadLoopGot h base n i v c).2) := by
  induction n generalizing i v c with
  | zero => rfl
  | succ n ih =>
      rw [loadLoop, loadLoopGot, loadHeaderGot_eq]
      rcases loadHeaderGot h base i v c with ⟨_ | v', c'⟩
      · rfl
      · exact ih (i + 1) v'

theorem loadPicElfUsos_fst (base : UInt32) (c : Carga) : (loadPicElfUsos base c).1 = loadPicElf base c := by
  rw [loadPicElfUsos, loadPicElf]
  rcases c.leitor.leTudo 0 52 with ⟨_ | b, l⟩
  · rfl
  · dsimp only
    split
    · rw [loadLoopGot_eq (ElfHeader.ofBytes b).phnum.toNat 0 ⟨0, none, 0⟩]
      rcases loadLoopGot (ElfHeader.ofBytes b) base (ElfHeader.ofBytes b).phnum.toNat 0 ⟨0, none, 0⟩
        { c with leitor := l } with ⟨_ | v, c'⟩
      · rfl
      · dsimp only [Option.map_some]
        split <;> rfl
    · rfl

theorem standaloneUsos_fst (t : SlotTable) (c : Carga) : (standaloneUsos t c).1 = loadPicElfStandalone t c := by
  rw [standaloneUsos, loadPicElfStandalone]
  rcases slotsAlloc t with ⟨_ | i, t'⟩
  · rfl
  · dsimp only
    rw [← loadPicElfUsos_fst]
    rcases loadPicElfUsos (slotsBaseAddr i) c with ⟨⟨_ | ⟨entry, a5⟩, c'⟩, usos⟩ <;> rfl

end Got

section Loading

variable {f : List UInt8} {l : Leitor}

/-- The loop gets over header `i`. -/
structure Passa (f : List UInt8) (i : ℕ) : Prop where
  read : (lido f ((header f).segmento i) 32).isSome
  static : ¬ ((programHeader f i).type = ptDynamic ∨ (programHeader f i).type = ptShlib ∨
    (programHeader f i).type = ptInterp)
  data : (programHeader f i).type = ptLoad →
    (lido f (programHeader f i).offset (programHeader f i).filesz.toNat).isSome

/-- An executable with two segments to be loaded, of which all is there that is read. -/
structure Carregavel (f : List UInt8) : Prop where
  size : (lido f 0 52).isSome
  accepted : aceita (f.take 52) = true
  headers : ∀ i < (header f).phnum.toNat, Passa f i
  two : (loads f).length = 2

def gotDe (f : List UInt8) (base : UInt32) (got : Option UInt32) : Option UInt32 :=
  if gotFound f = [] then got else some (base + gotStart (gotFound f))

theorem atribuiGot_read {k : Carga} (h : Reads f k.leitor) (got : Option UInt32) :
    atribuiGot (header f) base got k = gotDe f base got := by
  have hfound := findGotSection_read h
  rw [atribuiGot, gotDe]
  cases hs : (findGotSection (header f) k.leitor).1 with
  | none =>
      rw [hs, Option.map_none] at hfound
      split at hfound
      next hnil => rw [if_pos hnil]
      next => cases hfound
  | some r =>
      rw [hs, Option.map_some] at hfound
      split at hfound
      next => cases hfound
      next hne =>
        rw [if_neg hne, ← Option.some.inj hfound]

/-- The effect of a segment on `pt_load_seen`, on `got` and on the memory. -/
def carrega (f : List UInt8) (base : UInt32) (s : ℕ × Option UInt32 × Ram) (ph : ProgHeader) : ℕ × Option UInt32 × Ram :=
  if s.1 = 1 then
    (s.1 + 1, gotDe f base s.2.1, adds base ((patchesOf f).map (base + ·)) (putSegment f base ph s.2.2))
  else (s.1 + 1, s.2.1, putSegment f base ph s.2.2)

theorem loadHeaderGot_passa (base : UInt32) {i : ℕ} (hi : Passa f i) (v : Locais) {k : Carga} (h : Reads f k.leitor) :
    ∃ v' k', loadHeaderGot (header f) base i v k = (some v', k') ∧ Reads f k'.leitor ∧
      (v'.seen, v'.got, k'.ram) =
        ([programHeader f i].filter fun ph => ph.type = ptLoad).foldl (carrega f base) (v.seen, v.got, k.ram) := by
  obtain ⟨l₁, hread, h₁⟩ := leTudo_lido h ((header f).segmento i) 32
  obtain ⟨b, hb⟩ := Option.isSome_iff_exists.mp hi.read
  have hph : ProgHeader.ofBytes b = programHeader f i := by
    rw [lido_eq hb]
    rfl
  rw [loadHeaderGot, hread, hb]
  dsimp only
  rw [hph]
  by_cases hload : (programHeader f i).type = ptLoad
  · obtain ⟨k', hseg, h₂, hram⟩ :=
      loadSegment_eq base (k := { k with leitor := l₁ }) h₁ (lido_isSome.mp (hi.data hload))
    rw [if_pos hload, List.filter_cons_of_pos (by simpa using hload), hseg, List.filter_nil, List.foldl_cons,
      List.foldl_nil, carrega]
    dsimp only
    rw [if_neg Bool.noConfusion]
    by_cases hseen : v.seen = 1
    · obtain ⟨l₂, hpatch, h₃⟩ := patches_read h₂
      have hdata := patchData_eq (header f) base v.gotAddr k'
      rw [hpatch] at hdata
      rw [if_pos hseen, if_pos hseen]
      refine ⟨_, _, rfl, ?_, ?_⟩
      · rw [hdata]
        exact h₃
      · rw [hdata, patched, hram, atribuiGot_read h₂]
    · rw [if_neg hseen, if_neg hseen]
      refine ⟨_, _, rfl, h₂, ?_⟩
      rw [hram]
  · rw [if_neg hload, if_neg hi.static, List.filter_cons_of_neg (by simpa using hload)]
    exact ⟨_, _, rfl, h₁, rfl⟩

theorem loadSegment_short (base : UInt32) {ph : ProgHeader} {k : Carga} (h : Reads f k.leitor)
    (hshort : ¬ (slice f ph.offset ph.filesz.toNat).length = ph.filesz.toNat) : (loadSegment base ph k).1 = false := by
  obtain ⟨l', hle, -⟩ := h.le ph.offset ph.filesz.toNat
  rw [loadSegment, hle]
  dsimp only
  rw [if_pos (Or.inr hshort)]

theorem loadHeaderGot_falha (base : UInt32) {i : ℕ} (hi : ¬ Passa f i) (v : Locais) {k : Carga} (h : Reads f k.leitor) :
    (loadHeaderGot (header f) base i v k).1 = none := by
  obtain ⟨l₁, hread, h₁⟩ := leTudo_lido h ((header f).segmento i) 32
  rw [loadHeaderGot, hread]
  cases hb : lido f ((header f).segmento i) 32 with
  | none => rfl
  | some b =>
      have hph : ProgHeader.ofBytes b = programHeader f i := by
        rw [lido_eq hb]
        rfl
      dsimp only
      rw [hph]
      by_cases hload : (programHeader f i).type = ptLoad
      · rw [if_pos hload]
        have hshort : ¬ (slice f (programHeader f i).offset (programHeader f i).filesz.toNat).length =
            (programHeader f i).filesz.toNat := by
          intro hlen
          refine hi ⟨by rw [hb]; rfl, ?_, fun _ => lido_isSome.mpr hlen⟩
          rw [hload]
          decide
        have hfalse := loadSegment_short base (k := { k with leitor := l₁ }) h₁ hshort
        rw [if_pos hfalse]
      · rw [if_neg hload]
        by_cases hdyn : (programHeader f i).type = ptDynamic ∨ (programHeader f i).type = ptShlib ∨
            (programHeader f i).type = ptInterp
        · rw [if_pos hdyn]
        · exact absurd ⟨by rw [hb]; rfl, hdyn, fun hl => absurd hl hload⟩ hi

theorem loadLoopGot_passa (base : UInt32) (n i : ℕ) (v : Locais) {k : Carga} (h : Reads f k.leitor)
    (hi : ∀ j, i ≤ j → j < i + n → Passa f j) :
    ∃ v' k', loadLoopGot (header f) base n i v k = (some v', k') ∧
      (v'.seen, v'.got, k'.ram) = (((List.range' i n).map (programHeader f)).filter fun ph => ph.type = ptLoad).foldl
        (carrega f base) (v.seen, v.got, k.ram) := by
  induction n generalizing i v k with
  | zero => exact ⟨v, k, rfl, rfl⟩
  | succ n ih =>
      obtain ⟨v₁, k₁, hstep, h₁, he₁⟩ := loadHeaderGot_passa base (hi i (Nat.le_refl i) (by omega)) v h
      obtain ⟨v₂, k₂, hrest, he₂⟩ := ih (i + 1) v₁ h₁ fun j hj hlt => hi j (by omega) (by omega)
      refine ⟨v₂, k₂, ?_, ?_⟩
      · rw [loadLoopGot, hstep]
        exact hrest
      · have hsplit : (List.range' i (n + 1)).map (programHeader f) =
            [programHeader f i] ++ (List.range' (i + 1) n).map (programHeader f) := by
          rw [List.range'_succ, List.map_cons, List.singleton_append]
        rw [he₂, he₁, hsplit, List.filter_append, List.foldl_append]

theorem loadLoopGot_falha (base : UInt32) (n i : ℕ) (v : Locais) {k : Carga} (h : Reads f k.leitor)
    (hi : ¬ ∀ j, i ≤ j → j < i + n → Passa f j) : (loadLoopGot (header f) base n i v k).1 = none := by
  induction n generalizing i v k with
  | zero => exact absurd (fun j hle hlt => absurd hle (by omega)) hi
  | succ n ih =>
      rw [loadLoopGot]
      by_cases hpassa : Passa f i
      · obtain ⟨v₁, k₁, hstep, h₁, -⟩ := loadHeaderGot_passa base hpassa v h
        rw [hstep]
        apply ih (i + 1) v₁ h₁
        intro hrest
        apply hi
        intro j hle hlt
        rcases Nat.eq_or_lt_of_le hle with rfl | hlt'
        · exact hpassa
        · exact hrest j hlt' (by omega)
      · have hnone := loadHeaderGot_falha base hpassa v h
        generalize loadHeaderGot (header f) base i v k = r at hnone ⊢
        obtain ⟨v', k'⟩ := r
        subst hnone
        rfl

def carregada (f : List UInt8) (base : UInt32) (m : Ram) : Ram := adds base ((patchesOf f).map (base + ·)) (image f base m)

theorem usos_carregavel (hf : Carregavel f) (base : UInt32) (h : Reads f l) (m : Ram) :
    (loadPicElfUsos base ⟨l, m, []⟩).2 = depura (gotDe f base none) (carregada f base m) := by
  obtain ⟨l₁, hread, h₁⟩ := leTudo_lido h 0 52
  obtain ⟨b, hb⟩ := Option.isSome_iff_exists.mp hf.size
  obtain rfl := lido_eq hb
  obtain ⟨v, k, hloop, he⟩ := loadLoopGot_passa base (header f).phnum.toNat 0 ⟨0, none, 0⟩
    (k := ⟨l₁, m, []⟩) h₁ fun j _ hj => hf.headers j (by omega)
  obtain ⟨ph₁, ph₂, hloads⟩ := List.length_eq_two.mp hf.two
  rw [← List.range_eq_range', ← loads, hloads] at he
  obtain ⟨hseen, hgot⟩ := Prod.mk.inj he
  obtain ⟨hgot, hram⟩ := Prod.mk.inj hgot
  have haccepted : aceita (slice f 0 52) = true := hf.accepted
  have hheader : ElfHeader.ofBytes (slice f 0 52) = header f := rfl
  have htwo : v.seen = 2 := hseen
  rw [loadPicElfUsos, hread, hb]
  dsimp only
  rw [if_pos haccepted, hheader, hloop]
  dsimp only
  rw [if_pos htwo, hgot, hram, carregada, image, hloads]
  rfl

theorem foldl_carrega_seen (base : UInt32) (phs : List ProgHeader) (s : ℕ × Option UInt32 × Ram) :
    (phs.foldl (carrega f base) s).1 = s.1 + phs.length := by
  induction phs generalizing s with
  | nil => rfl
  | cons ph phs ih =>
      have hone : (carrega f base s ph).1 = s.1 + 1 := by
        rw [carrega]
        split <;> rfl
      rw [List.foldl_cons, ih, hone, List.length_cons]
      omega

theorem usos_falha (hf : ¬ Carregavel f) (base : UInt32) (h : Reads f l) (m : Ram) :
    (loadPicElfUsos base ⟨l, m, []⟩).2 = [] := by
  obtain ⟨l₁, hread, h₁⟩ := leTudo_lido h 0 52
  rw [loadPicElfUsos, hread]
  cases hb : lido f 0 52 with
  | none => rfl
  | some b =>
      obtain rfl := lido_eq hb
      have hheader : ElfHeader.ofBytes (slice f 0 52) = header f := rfl
      dsimp only
      by_cases haccepted : aceita (slice f 0 52) = true
      · rw [if_pos haccepted, hheader]
        by_cases hall : ∀ j, 0 ≤ j → j < 0 + (header f).phnum.toNat → Passa f j
        · obtain ⟨v, k, hloop, he⟩ := loadLoopGot_passa base (header f).phnum.toNat 0 ⟨0, none, 0⟩
            (k := ⟨l₁, m, []⟩) h₁ hall
          rw [← List.range_eq_range', ← loads] at he
          have hseen : v.seen = (loads f).length := by
            have hcount := foldl_carrega_seen (f := f) base (loads f) (0, none, m)
            rw [← he, Nat.zero_add] at hcount
            exact hcount
          have htwo : ¬ v.seen = 2 := by
            intro htwo
            exact hf ⟨by rw [hb]; rfl, haccepted, fun i hi => hall i (Nat.zero_le i) (by omega), hseen.symm.trans htwo⟩
          rw [hloop]
          dsimp only
          rw [if_neg htwo]
        · have hnone := loadLoopGot_falha base (header f).phnum.toNat 0 ⟨0, none, 0⟩
            (k := ⟨l₁, m, []⟩) h₁ hall
          generalize loadLoopGot (header f) base (header f).phnum.toNat 0 ⟨0, none, 0⟩ ⟨l₁, m, []⟩ = r at hnone ⊢
          obtain ⟨v, k⟩ := r
          subst hnone
          rfl
      · rw [if_neg haccepted]

end Loading

section Uses

variable {f : List UInt8} {l : Leitor} {t : SlotTable} {i : Slot}

/-- Nothing is used that has no value, and no memory outside a span. -/
def Seguros (area : Span) (usos : List Uso) : Prop := ∀ u ∈ usos, ∃ s, u = .acessa s ∧ s.Within area

theorem standaloneUsos_snd (hi : (slotsAlloc t).1 = some i) (c : Carga) :
    (standaloneUsos t c).2 = (loadPicElfUsos (slotsBaseAddr i) c).2 := by
  rw [standaloneUsos]
  cases ha : slotsAlloc t with
  | mk r t' =>
      rw [ha] at hi
      cases hi
      dsimp only
      rcases loadPicElfUsos (slotsBaseAddr i) c with ⟨⟨_ | ⟨entry, a5⟩, c'⟩, usos⟩ <;> rfl

theorem seguros_depura_iff (i : Slot) (off : UInt32) (m : Ram) :
    Seguros (slotArea i) (depura (some (slotsBaseAddr i + off)) m) ↔
      Fits (off + 28) 4 ∧ (Span.mk (load32 m (slotsBaseAddr i + off + 28)) 9).Within (slotArea i) := by
  have hone {s : Span} : (∃ s', Uso.acessa s = .acessa s' ∧ s'.Within (slotArea i)) ↔ s.Within (slotArea i) := by
    constructor
    · rintro ⟨s', hs, hin⟩
      cases hs
      exact hin
    · intro hin
      exact ⟨s, rfl, hin⟩
  rw [Seguros, depura, List.forall_mem_cons, List.forall_mem_singleton, hone, hone, UInt32.add_assoc, within_slot_iff]

/-- What is printed after the loading of a file that can be loaded is safe when its sections can be
read and one is named `.got*`, the eighth word from the first of them lies in the slot, and what the
loading leaves in this word leads to nine bytes of the slot. -/
theorem debug_reads_iff (hi : (slotsAlloc t).1 = some i) (h : Reads f l) (m : Ram) :
    Seguros (slotArea i) (standaloneUsos t ⟨l, m, []⟩).2 ↔
      (Carregavel f → gotFound f ≠ [] ∧ Fits (gotStart (gotFound f) + 28) 4 ∧
        (Span.mk (load32 (carregada f (slotsBaseAddr i) m) (slotsBaseAddr i + gotStart (gotFound f) + 28)) 9).Within
          (slotArea i)) := by
  rw [standaloneUsos_snd hi]
  by_cases hf : Carregavel f
  · rw [usos_carregavel hf (slotsBaseAddr i) h m, forall_prop_of_true hf, gotDe]
    by_cases hgot : gotFound f = []
    · rw [if_pos hgot]
      refine iff_of_false ?_ fun hall => hall.1 hgot
      intro hsafe
      obtain ⟨s, hs, -⟩ := hsafe .indefinida (List.mem_singleton_self _)
      cases hs
    · rw [if_neg hgot, seguros_depura_iff, and_iff_right hgot]
  · rw [usos_falha hf (slotsBaseAddr i) h m]
    exact iff_of_true (fun u hu => nomatch hu) fun hload => absurd hload hf

/-- The relocation of the word at `0x10C` makes it lead to the start of the slot. -/
theorem debug_reads_twoGots :
    Seguros (slotArea 0) (standaloneUsos slotsInit ⟨twoGotsFile 0xF0, fun _ => 0, []⟩).2 := by
  have hslot : (slotsAlloc slotsInit).1 = some 0 := by decide
  have hgot : gotFound (twoGots 0xF0) = [(0x100, 4), (0xF0, 4)] := by decide +kernel
  refine (debug_reads_iff hslot (twoGotsFile_reads 0xF0) fun _ => 0).mpr fun _ => ?_
  rw [hgot]
  have hptr : load32 (carregada (twoGots 0xF0) (slotsBaseAddr 0) fun _ => 0)
      (slotsBaseAddr 0 + gotStart [(0x100, 4), (0xF0, 4)] + 28) = slotsBaseAddr 0 + 0 := by decide +kernel
  refine ⟨List.cons_ne_nil _ _, by decide, ?_⟩
  rw [hptr, within_slot_iff]
  exact by decide

/-- A program without sections is loaded, and `got` has no value. -/
theorem got_undefined : (standaloneUsos slotsInit ⟨bssFile 0x1000 0x20, fun _ => 0, []⟩).1.1 = .chama 0x92000 0x92000 ∧
    ¬ Seguros (slotArea 0) (standaloneUsos slotsInit ⟨bssFile 0x1000 0x20, fun _ => 0, []⟩).2 := by
  have husos : (standaloneUsos slotsInit ⟨bssFile 0x1000 0x20, fun _ => 0, []⟩).1.1 = .chama 0x92000 0x92000 ∧
      (standaloneUsos slotsInit ⟨bssFile 0x1000 0x20, fun _ => 0, []⟩).2 = [.indefinida] := by decide +kernel
  refine ⟨husos.1, ?_⟩
  rw [husos.2]
  intro hsafe
  obtain ⟨s, hs, -⟩ := hsafe .indefinida (List.mem_singleton_self _)
  cases hs

end Uses

end Orion68.DebugReads
