import Orion68.Loader.Patches

namespace Orion68.LoaderBounds

open Memory FatFs Shell LoaderPic LoaderPatches

/-- The parts of the segments that the loading of `n` program headers from header `i` gets to meet
`S`, given by their offset from `task_base` and their length, and the words to be patched meet `Q`. -/
def SegmentsMeet (S : UInt32 → Nat → Prop) (Q : UInt32 → Prop) (h : ElfHeader) :
    Nat → Nat → Nat → Leitor → Prop
  | 0, _, _, _ => True
  | n + 1, i, seen, l =>
      match l.leTudo (h.segmento i) 32 with
      | (none, _) => True
      | (some b, l) =>
          let ph := ProgHeader.ofBytes b
          if ph.type = ptLoad then
            let (fr, bytes, l) := l.le ph.offset ph.filesz.toNat
            S ph.paddr bytes.length ∧
              (fr = .ok ∧ bytes.length = ph.filesz.toNat →
                (ph.filesz < ph.memsz → S (ph.paddr + ph.filesz) (ph.memsz - ph.filesz).toNat) ∧
                if seen = 1 then
                  (∀ a ∈ (patches h l).1, Q a) ∧ SegmentsMeet S Q h n (i + 1) (seen + 1) (patches h l).2
                else SegmentsMeet S Q h n (i + 1) (seen + 1) l)
          else if ph.type = ptDynamic ∨ ph.type = ptShlib ∨ ph.type = ptInterp then True
          else SegmentsMeet S Q h n (i + 1) seen l

/-- The same for a whole file; a file whose header is not accepted has no segments. -/
def FileMeets (S : UInt32 → Nat → Prop) (Q : UInt32 → Prop) (l : Leitor) : Prop :=
  ∀ b l', l.leTudo 0 52 = (some b, l') → aceita b = true →
    SegmentsMeet S Q (ElfHeader.ofBytes b) (ElfHeader.ofBytes b).phnum.toNat 0 0 l'

section Writes

variable {R : Span → Prop} {base : UInt32} {c : Carga}

def Writes (R : Span → Prop) (c : Carga) : Prop := ∀ s ∈ c.escritas, R s

theorem writes_leitor {l : Leitor} : Writes R { c with leitor := l } ↔ Writes R c := Iff.rfl

theorem writes_grava {a : UInt32} {d : List UInt8} :
    Writes R (c.grava a d) ↔ Writes R c ∧ R ⟨a, d.length⟩ := by
  simp only [Writes, Carga.grava, List.forall_mem_append, List.forall_mem_singleton]

theorem writes_patched {ws : List UInt32} {l : Leitor} :
    Writes R (patched base ws l c) ↔ Writes R c ∧ ∀ a ∈ ws, R ⟨base + a, 4⟩ := by
  simp only [Writes, patched, List.forall_mem_append, List.forall_mem_map]

theorem loadSegment_writes (R : Span → Prop) (base : UInt32) (ph : ProgHeader) (c : Carga) :
    ∃ fr bytes l ok c', c.leitor.le ph.offset ph.filesz.toNat = (fr, bytes, l) ∧
      loadSegment base ph c = (ok, c') ∧ c'.leitor = l ∧
      (ok = true ↔ fr = .ok ∧ bytes.length = ph.filesz.toNat) ∧
      (Writes R c' ↔ Writes R c ∧ R ⟨base + ph.paddr, bytes.length⟩ ∧
        (ok = true → ph.filesz < ph.memsz →
          R ⟨base + (ph.paddr + ph.filesz), (ph.memsz - ph.filesz).toNat⟩)) := by
  rw [loadSegment]
  cases hr : c.leitor.le ph.offset ph.filesz.toNat with
  | mk fr p =>
      obtain ⟨bytes, l⟩ := p
      dsimp only
      by_cases hok : fr = .ok ∧ bytes.length = ph.filesz.toNat
      · rw [if_neg (by tauto)]
        by_cases hbss : ph.filesz < ph.memsz
        · rw [if_pos hbss]
          refine ⟨fr, bytes, l, true, _, rfl, rfl, rfl, by simp [hok], ?_⟩
          rw [writes_grava, writes_grava, List.length_replicate, UInt32.add_assoc, and_assoc]
          exact and_congr_right fun _ => and_congr_right fun _ => ⟨fun h _ _ => h, fun h => h rfl hbss⟩
        · rw [if_neg hbss]
          refine ⟨fr, bytes, l, true, _, rfl, rfl, rfl, by simp [hok], ?_⟩
          rw [writes_grava]
          exact and_congr_right fun _ => ⟨fun h => ⟨h, fun _ hlt => absurd hlt hbss⟩, fun h => h.1⟩
      · rw [if_pos (by tauto)]
        refine ⟨fr, bytes, l, false, _, rfl, rfl, rfl, by simp [hok], ?_⟩
        rw [writes_grava]
        exact and_congr_right fun _ => ⟨fun h => ⟨h, fun hf => Bool.noConfusion hf⟩, fun h => h.1⟩

theorem loadLoop_writes (R : Span → Prop) (h : ElfHeader) (base : UInt32) (n i seen : Nat) (g : UInt32) (c : Carga) :
    Writes R (loadLoop h base n i seen g c).2 ↔
      Writes R c ∧
        SegmentsMeet (fun off k => R ⟨base + off, k⟩) (fun a => R ⟨base + a, 4⟩) h n i seen c.leitor := by
  induction n generalizing i seen g c with
  | zero => exact (and_iff_left trivial).symm
  | succ n ih =>
      rw [loadLoop, loadHeader, SegmentsMeet]
      cases hr : c.leitor.leTudo (h.segmento i) 32 with
      | mk b l =>
          cases b with
          | none => exact (and_iff_left trivial).symm
          | some b =>
              dsimp only
              by_cases hload : (ProgHeader.ofBytes b).type = ptLoad
              · rw [if_pos hload, if_pos hload]
                obtain ⟨fr, bytes, l', ok, c', hle, hseg, hl', hok, hw⟩ :=
                  loadSegment_writes R base (ProgHeader.ofBytes b) { c with leitor := l }
                have hle' : l.le (ProgHeader.ofBytes b).offset (ProgHeader.ofBytes b).filesz.toNat =
                    (fr, bytes, l') := hle
                rw [hseg, hle']
                dsimp only
                rw [← hok]
                cases ok with
                | false =>
                    rw [if_pos rfl]
                    dsimp only
                    rw [hw, writes_leitor]
                    simp only [Bool.false_eq_true, false_imp_iff, and_true]
                | true =>
                    rw [forall_prop_of_true rfl] at hw ⊢
                    rw [if_neg Bool.noConfusion]
                    subst hl'
                    by_cases hseen : seen = 1
                    · rw [if_pos hseen, if_pos hseen]
                      dsimp only
                      rw [ih, patchData_eq, writes_patched, hw, writes_leitor, patched_leitor, and_assoc, and_assoc,
                        and_assoc]
                    · rw [if_neg hseen, if_neg hseen]
                      dsimp only
                      rw [ih, hw, writes_leitor, and_assoc, and_assoc]
              · rw [if_neg hload, if_neg hload]
                by_cases hdyn : (ProgHeader.ofBytes b).type = ptDynamic ∨ (ProgHeader.ofBytes b).type = ptShlib ∨
                    (ProgHeader.ofBytes b).type = ptInterp
                · rw [if_pos hdyn, if_pos hdyn]
                  exact (and_iff_left trivial).symm
                · rw [if_neg hdyn, if_neg hdyn]
                  exact ih (i + 1) seen g { c with leitor := l }

theorem loadPicElf_writes (R : Span → Prop) (base : UInt32) (l : Leitor) (m : Ram) :
    Writes R (loadPicElf base ⟨l, m, []⟩).2 ↔
      FileMeets (fun off k => R ⟨base + off, k⟩) (fun a => R ⟨base + a, 4⟩) l := by
  have hnil : Writes R ⟨l, m, []⟩ := fun s hs => absurd hs List.not_mem_nil
  rw [loadPicElf]
  cases hr : l.leTudo 0 52 with
  | mk b l' =>
      cases b with
      | none =>
          refine iff_of_true hnil ?_
          intro b l'' hb
          rw [hr] at hb
          cases hb
      | some b =>
          dsimp only
          by_cases ha : aceita b = true
          · have hmeets : FileMeets (fun off k => R ⟨base + off, k⟩) (fun a => R ⟨base + a, 4⟩) l ↔
                SegmentsMeet (fun off k => R ⟨base + off, k⟩) (fun a => R ⟨base + a, 4⟩) (ElfHeader.ofBytes b)
                  (ElfHeader.ofBytes b).phnum.toNat 0 0 l' := by
              constructor
              · intro h
                exact h b l' hr ha
              · intro h b' l'' hb _
                rw [hr] at hb
                cases hb
                exact h
            have hloop := loadLoop_writes R (ElfHeader.ofBytes b) base (ElfHeader.ofBytes b).phnum.toNat 0 0 0
              ⟨l', m, []⟩
            rw [if_pos ha, hmeets]
            cases hl : loadLoop (ElfHeader.ofBytes b) base (ElfHeader.ofBytes b).phnum.toNat 0 0 0 ⟨l', m, []⟩ with
            | mk r c' =>
                rw [hl] at hloop
                cases r <;> exact hloop.trans (and_iff_right hnil)
          · rw [if_neg ha]
            refine iff_of_true hnil ?_
            intro b' l'' hb ha'
            rw [hr] at hb
            cases hb
            exact absurd ha' ha

end Writes

section Conditions

variable {S S' S'' : UInt32 → Nat → Prop} {Q Q' Q'' : UInt32 → Prop}

theorem SegmentsMeet.combine (hS : ∀ off k, S off k → S' off k → S'' off k) (hQ : ∀ a, Q a → Q' a → Q'' a)
    {h : ElfHeader} {n i seen : Nat} {l : Leitor} (h₁ : SegmentsMeet S Q h n i seen l)
    (h₂ : SegmentsMeet S' Q' h n i seen l) : SegmentsMeet S'' Q'' h n i seen l := by
  induction n generalizing i seen l with
  | zero => trivial
  | succ n ih =>
      rw [SegmentsMeet] at *
      cases hr : l.leTudo (h.segmento i) 32 with
      | mk b l' =>
          rw [hr] at h₁ h₂
          cases b with
          | none => trivial
          | some b =>
              dsimp only at *
              by_cases hload : (ProgHeader.ofBytes b).type = ptLoad
              · rw [if_pos hload] at *
                refine ⟨hS _ _ h₁.1 h₂.1, ?_⟩
                intro hok
                obtain ⟨hbss₁, hrest₁⟩ := h₁.2 hok
                obtain ⟨hbss₂, hrest₂⟩ := h₂.2 hok
                refine ⟨fun hlt => hS _ _ (hbss₁ hlt) (hbss₂ hlt), ?_⟩
                split
                next hseen =>
                  rw [if_pos hseen] at hrest₁ hrest₂
                  exact ⟨fun a ha => hQ a (hrest₁.1 a ha) (hrest₂.1 a ha), ih hrest₁.2 hrest₂.2⟩
                next hseen =>
                  rw [if_neg hseen] at hrest₁ hrest₂
                  exact ih hrest₁ hrest₂
              · rw [if_neg hload] at *
                split
                next => trivial
                next hdyn =>
                  rw [if_neg hdyn] at h₁ h₂
                  exact ih h₁ h₂

theorem FileMeets.combine (hS : ∀ off k, S off k → S' off k → S'' off k) (hQ : ∀ a, Q a → Q' a → Q'' a)
    {l : Leitor} (h₁ : FileMeets S Q l) (h₂ : FileMeets S' Q' l) : FileMeets S'' Q'' l := by
  intro b l' hr ha
  exact SegmentsMeet.combine hS hQ (h₁ b l' hr ha) (h₂ b l' hr ha)

end Conditions

section Frame

variable {I : Carga → Prop} {base : UInt32} {c : Carga}

theorem patched_keeps (hl : ∀ l c, I c → I { c with leitor := l }) (hs : ∀ a c, I c → I (c.soma base a))
    (ws : List UInt32) (l : Leitor) (hc : I c) : I (patched base ws l c) := by
  induction ws generalizing c with
  | nil =>
      rw [patched_nil]
      exact hl l c hc
  | cons a ws ih =>
      rw [patched_cons l]
      exact ih (hs (base + a) _ (hl l c hc))

theorem loadSegment_keeps (base : UInt32) (hl : ∀ l c, I c → I { c with leitor := l })
    (hg : ∀ a d c, I c → I (c.grava a d)) (ph : ProgHeader) (hc : I c) : I (loadSegment base ph c).2 := by
  rw [loadSegment]
  cases hr : c.leitor.le ph.offset ph.filesz.toNat with
  | mk fr p =>
      have hdata := hg (base + ph.paddr) p.1 _ (hl p.2 c hc)
      dsimp only
      split
      · exact hdata
      · split
        · exact hg _ _ _ hdata
        · exact hdata

theorem loadLoop_keeps (hl : ∀ l c, I c → I { c with leitor := l }) (hg : ∀ a d c, I c → I (c.grava a d))
    (hs : ∀ a c, I c → I (c.soma base a)) (h : ElfHeader) (n i seen : Nat) (g : UInt32) (hc : I c) :
    I (loadLoop h base n i seen g c).2 := by
  have hstep (i seen : Nat) (g : UInt32) {c : Carga} (hc : I c) : I (loadHeader h base i seen g c).2 := by
    rw [loadHeader]
    split
    next => exact hl _ _ hc
    next b l hr =>
      have hseg := loadSegment_keeps base hl hg (ProgHeader.ofBytes b) (hl l c hc)
      dsimp only
      split
      · split
        · exact hseg
        · split
          · rw [patchData_eq]
            exact patched_keeps hl hs _ _ hseg
          · exact hseg
      · split <;> exact hl l c hc
  induction n generalizing i seen g c with
  | zero => exact hc
  | succ n ih =>
      have hnext := hstep i seen g hc
      rw [loadLoop]
      split
      next c' hh =>
        rw [hh] at hnext
        exact hnext
      next seen' g' c' hh =>
        rw [hh] at hnext
        exact ih (i + 1) seen' g' hnext

theorem loadPicElf_unwritten (base : UInt32) (l : Leitor) (m : Ram) {x : UInt32}
    (hx : ∀ s ∈ (loadPicElf base ⟨l, m, []⟩).2.escritas, x ∉ s) : (loadPicElf base ⟨l, m, []⟩).2.ram x = m x := by
  have hloop (h : ElfHeader) (n : Nat) (l' : Leitor) :
      (∀ s ∈ (loadLoop h base n 0 0 0 ⟨l', m, []⟩).2.escritas, x ∉ s) →
        (loadLoop h base n 0 0 0 ⟨l', m, []⟩).2.ram x = m x := by
    apply loadLoop_keeps (I := fun c => (∀ s ∈ c.escritas, x ∉ s) → c.ram x = m x)
    · exact fun _ _ hc => hc
    · intro a d c hc hw
      rw [Carga.grava, List.forall_mem_append, List.forall_mem_singleton] at hw
      exact (write_of_notMem c.ram hw.2).trans (hc hw.1)
    · intro a c hc hw
      rw [Carga.soma, List.forall_mem_append, List.forall_mem_singleton] at hw
      exact (add32_of_notMem base c.ram hw.2).trans (hc hw.1)
    · exact fun _ => rfl
  rw [loadPicElf] at hx ⊢
  cases hr : l.leTudo 0 52 with
  | mk b l' =>
      rw [hr] at hx
      cases b with
      | none => rfl
      | some b =>
          dsimp only at hx ⊢
          by_cases ha : aceita b = true
          · rw [if_pos ha] at hx ⊢
            have hb := hloop (ElfHeader.ofBytes b) (ElfHeader.ofBytes b).phnum.toNat l'
            cases hl : loadLoop (ElfHeader.ofBytes b) base (ElfHeader.ofBytes b).phnum.toNat 0 0 0 ⟨l', m, []⟩ with
            | mk r c' =>
                rw [hl] at hx hb
                cases r <;> exact hb hx
          · rw [if_neg ha]

end Frame

section Slots

/-- `k` bytes from the offset `off` lie within a slot. -/
def Fits (off : UInt32) (k : Nat) : Prop := k = 0 ∨ off.toNat + k ≤ slotSize.toNat

instance (off : UInt32) (k : Nat) : Decidable (Fits off k) := inferInstanceAs (Decidable (_ ∨ _))

theorem within_slot_iff (i : Slot) (off : UInt32) (k : Nat) :
    (Span.mk (slotsBaseAddr i + off) k).Within (slotArea i) ↔ Fits off k := by
  have hsize : (slotArea i).length < 2 ^ 32 := slotSize.toNat_lt
  rw [Span.within_iff hsize, Fits]
  change k = 0 ∨ (slotsBaseAddr i + off - slotsBaseAddr i).toNat + k ≤ _ ↔ _
  rw [UInt32.add_comm, UInt32.add_sub_cancel]
  rfl

theorem standalone_carga {t : SlotTable} {i : Slot} (hi : (slotsAlloc t).1 = some i) (c : Carga) :
    (loadPicElfStandalone t c).2.2 = (loadPicElf (slotsBaseAddr i) c).2 := by
  rw [loadPicElfStandalone]
  cases ha : slotsAlloc t with
  | mk r t' =>
      rw [ha] at hi
      cases hi
      dsimp only
      cases hl : loadPicElf (slotsBaseAddr i) c with
      | mk r c' => cases r <;> rfl

/-- All that the loader writes lies in its slot exactly when the file asks for nothing else. -/
theorem writes_within_slot_iff {t : SlotTable} {i : Slot} (hi : (slotsAlloc t).1 = some i) (l : Leitor) (m : Ram) :
    (∀ s ∈ (loadPicElfStandalone t ⟨l, m, []⟩).2.2.escritas, s.Within (slotArea i)) ↔
      FileMeets Fits (fun a => Fits a 4) l := by
  have hwrites := loadPicElf_writes (fun s => s.Within (slotArea i)) (slotsBaseAddr i) l m
  simp only [within_slot_iff] at hwrites
  rw [standalone_carga hi]
  exact hwrites

/-- A program without sections, an empty segment at 0 and a second segment of `memsz` zeros. -/
def bssAt (paddr memsz : UInt32) : List UInt8 :=
  [0x7F, 0x45, 0x4C, 0x46, 1, 2, 1, 0, 0, 0, 0, 0, 0, 0, 0, 0] ++
    [0, 2, 0, 4, 0, 0, 0, 1, 0, 0, 0, 0, 0, 0, 0, 52, 0, 0, 0, 0, 0, 0, 0, 0, 0, 52, 0, 32, 0, 2, 0, 40, 0, 0, 0, 0] ++
    [0, 0, 0, 1] ++ List.replicate 28 0 ++
    ([0, 0, 0, 1] ++ List.replicate 8 0 ++ bytes32 paddr ++ List.replicate 4 0 ++ bytes32 memsz ++ List.replicate 8 0)

theorem length_bssAt (paddr memsz : UInt32) : (bssAt paddr memsz).length = 116 := rfl

def bssFile (paddr memsz : UInt32) : Leitor :=
  Leitor.abre [] (fun _ => .file false ⟨bssAt paddr memsz, by rw [length_bssAt]; decide⟩)
    fun _ => ⟨.ok, 0, fun _ => 0⟩

def bssRun (paddr memsz : UInt32) : Desfecho × SlotTable × Carga :=
  loadPicElfStandalone slotsInit ⟨bssFile paddr memsz, fun _ => 0, []⟩

theorem fits_of_run {l : Leitor} (base : UInt32) (m : Ram)
    (h : ∀ s ∈ (loadPicElf base ⟨l, m, []⟩).2.escritas, Fits (s.start - base) s.length) :
    FileMeets Fits (fun a => Fits a 4) l := by
  have hoff (a : UInt32) : base + a - base = a := by rw [UInt32.add_comm, UInt32.add_sub_cancel]
  have hmeets := (loadPicElf_writes (fun s => Fits (s.start - base) s.length) base l m).mp h
  simpa only [hoff] using hmeets

theorem writes_within_slot_low : (slotsAlloc slotsInit).1 = some 0 ∧
    ∀ s ∈ (bssRun 0x1000 0x20).2.2.escritas, s.Within (slotArea 0) := by
  have hslot : (slotsAlloc slotsInit).1 = some 0 := by decide
  have hfits : FileMeets Fits (fun a => Fits a 4) (bssFile 0x1000 0x20) :=
    fits_of_run slotBase (fun _ => 0) (by decide +kernel)
  refine ⟨hslot, ?_⟩
  rw [bssRun, writes_within_slot_iff hslot]
  exact hfits

/-- A second segment that ends beyond the slot is loaded, and the program is called. -/
theorem writes_beyond_slot : (bssRun 0x3FFF0 0x20).1 = .chama 0x92000 0x92000 ∧
    ¬ ∀ s ∈ (bssRun 0x3FFF0 0x20).2.2.escritas, s.Within (slotArea 0) := by
  have hrun : (bssRun 0x3FFF0 0x20).1 = .chama 0x92000 0x92000 ∧
      ⟨0xD1FF0, 0x20⟩ ∈ (bssRun 0x3FFF0 0x20).2.2.escritas := by decide +kernel
  refine ⟨hrun.1, ?_⟩
  intro h
  have hin : Fits 0x3FFF0 0x20 := (within_slot_iff 0 0x3FFF0 0x20).mp (h _ hrun.2)
  exact absurd hin (by decide +kernel)

end Slots

end Orion68.LoaderBounds
