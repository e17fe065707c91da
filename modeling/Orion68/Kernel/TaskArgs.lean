import Orion68.Kernel.TaskCreate

namespace Orion68.TaskArgs

open Memory Stacks TaskCreate

section Places

def tamanho (argv : List CString) : ℕ := (argv.map fun s => s.1.length + 1).sum

/-- Where the string `i` is copied to. -/
def lugar (argvCopy : UInt32) (argv : List CString) (i : ℕ) : UInt32 := argvCopy - UInt32.ofNat (tamanho (argv.drop i))

/-- The copied arguments are there, and apart from the frame. -/
structure Intactos (argvCopy : UInt32) (argv : List CString) (quadro : Span) (m : Ram) : Prop where
  textos : ∀ i (h : i < argv.length), Stored m (load32 m (argvCopy + UInt32.ofNat (4 * i))) (argv[i].1 ++ [0])
  nulo : load32 m (argvCopy + UInt32.ofNat (4 * argv.length)) = 0
  array : (Span.mk argvCopy (4 * (argv.length + 1))).Disjoint quadro
  strings : ∀ i (h : i < argv.length), (Span.mk (lugar argvCopy argv i) (argv[i].1.length + 1)).Disjoint quadro

variable {argv : List CString} {a : UInt32} {m : Ram}

theorem tamanho_cons (s : CString) (argv : List CString) : tamanho (s :: argv) = s.1.length + 1 + tamanho argv := rfl

theorem tamanho_drop {i : ℕ} (h : i < argv.length) :
    tamanho (argv.drop i) = argv[i].1.length + 1 + tamanho (argv.drop (i + 1)) := by
  rw [List.drop_eq_getElem_cons h, tamanho_cons]

theorem tamanho_drop_le (argv : List CString) (i : ℕ) : tamanho (argv.drop i) ≤ tamanho argv := by
  induction argv generalizing i with
  | nil => rw [List.drop_nil]
  | cons s argv ih =>
      cases i with
      | zero => rfl
      | succ i =>
          rw [List.drop_succ_cons, tamanho_cons]
          exact Nat.le_trans (ih i) (Nat.le_add_left ..)

theorem tamanho_bounds {i : ℕ} (h : i < argv.length) :
    tamanho (argv.drop i) = argv[i].1.length + 1 + tamanho (argv.drop (i + 1)) ∧ tamanho (argv.drop i) ≤ tamanho argv :=
  ⟨tamanho_drop h, tamanho_drop_le argv i⟩

variable (argv) in
theorem exists_string {t : ℕ} (h0 : 0 < t) (h : t ≤ tamanho argv) :
    ∃ i, ∃ _ : i < argv.length, tamanho (argv.drop (i + 1)) < t ∧ t ≤ tamanho (argv.drop i) := by
  induction argv with
  | nil => exact absurd h (Nat.not_le_of_lt h0)
  | cons s argv ih =>
      by_cases hlater : t ≤ tamanho argv
      · obtain ⟨i, hi, hlt, hle⟩ := ih hlater
        exact ⟨i + 1, Nat.succ_lt_succ hi, hlt, hle⟩
      · exact ⟨0, Nat.zero_lt_succ _, Nat.lt_of_not_le hlater, h⟩

end Places

section Loop

variable {arg : CString} {argv : List CString} {i j : ℕ}

/-- What the loop of `copy_args_into_slot` has done for the last arguments, the first of which is `i`. -/
structure Copiados (a : UInt32) (argv : List CString) (i : ℕ) (s : Ram × UInt32) : Prop where
  cursor : s.2 = lugar a argv 0
  textos : ∀ j (h : j < argv.length), Stored s.1 (lugar a argv j) (argv[j].1 ++ [0])
  ponteiros : ∀ j, j < argv.length → Stored s.1 (a + UInt32.ofNat (4 * (i + j))) (bytes32 (lugar a argv j))

theorem bytes32_fits (w : UInt32) : (bytes32 w).length ≤ 2 ^ 32 := by
  rw [length_bytes32]
  decide

theorem length_texto (arg : CString) : (arg.1 ++ [0]).length = arg.1.length + 1 := List.length_append

theorem string_disjoint_array (a : UInt32) (hj : j < argv.length) {k : ℕ} (hfit : 4 * k + 4 + tamanho argv ≤ 2 ^ 32) :
    (Span.mk (lugar a argv j) (argv[j].1.length + 1)).Disjoint ⟨a + UInt32.ofNat (4 * k), 4⟩ := by
  obtain ⟨hdrop, hle⟩ := tamanho_bounds hj
  exact disjoint_below_above a (by omega) (by omega)

theorem string_disjoint_string (a : UInt32) (hj : j < argv.length) (hfit : tamanho (arg :: argv) ≤ 2 ^ 32) :
    (Span.mk (lugar a argv j) (argv[j].1.length + 1)).Disjoint ⟨lugar a (arg :: argv) 0, arg.1.length + 1⟩ := by
  obtain ⟨hdrop, hle⟩ := tamanho_bounds hj
  apply Span.disjoint_comm.mp
  rw [tamanho_cons] at hfit
  rw [lugar, List.drop_zero, tamanho_cons]
  exact disjoint_below_below a (by omega) (by omega) hfit

theorem Copiados.copyArg {a : UInt32} {s : Ram × UInt32} (h : Copiados a argv (i + 1) s)
    (hfit : 4 * (i + 1 + argv.length) + tamanho (arg :: argv) ≤ 2 ^ 32) :
    Copiados a (arg :: argv) i (copyArg a (arg, i) s) := by
  have hcursor : s.2 - UInt32.ofNat (arg.1.length + 1) = lugar a (arg :: argv) 0 := by
    rw [h.cursor, lugar, lugar, List.drop_zero, List.drop_zero, sub_ofNat_sub, tamanho_cons, Nat.add_comm]
  have hturn : TaskCreate.copyArg a (arg, i) s = (write (a + UInt32.ofNat (4 * i)) (bytes32 (lugar a (arg :: argv) 0))
      (write (lugar a (arg :: argv) 0) (arg.1 ++ [0]) s.1), lugar a (arg :: argv) 0) := by
    rw [← hcursor]
    rfl
  have htotal := tamanho_cons arg argv
  rw [hturn]
  refine ⟨rfl, ?_, ?_⟩
  · intro j hj
    have hsize : ((arg :: argv)[j].1 ++ [0]).length ≤ 2 ^ 32 := by
      obtain ⟨hdrop, hle⟩ := tamanho_bounds hj
      rw [length_texto]
      omega
    apply Stored.write _ hsize
    · rw [length_texto]
      exact string_disjoint_array a hj (by omega)
    · cases j with
      | zero => exact stored_write s.1 _ hsize
      | succ j =>
          have hj' := Nat.lt_of_succ_lt_succ hj
          apply (h.textos j hj').write hsize
          rw [length_texto, length_texto]
          exact string_disjoint_string a hj' (by omega)
  · intro j hj
    cases j with
    | zero => exact stored_write _ _ (bytes32_fits _)
    | succ j =>
        have hj' := Nat.lt_of_succ_lt_succ hj
        have hentry : i + (j + 1) = i + 1 + j := by omega
        rw [hentry]
        apply Stored.write _ (bytes32_fits _)
        · apply Span.disjoint_comm.mp
          rw [length_bytes32, length_bytes32]
          exact disjoint_above_above a (by omega) (by omega)
        · apply (h.ponteiros j hj').write (bytes32_fits _)
          apply Span.disjoint_comm.mp
          rw [length_texto, length_bytes32]
          exact string_disjoint_array a (show 0 < (arg :: argv).length from Nat.zero_lt_succ _) (by omega)

theorem copiados (a : UInt32) (m : Ram) (argv : List CString) (i : ℕ)
    (hfit : 4 * (i + argv.length) + tamanho argv ≤ 2 ^ 32) :
    Copiados a argv i ((argv.zipIdx i).foldr (copyArg a) (m, a)) := by
  induction argv generalizing i with
  | nil =>
      refine ⟨(UInt32.sub_zero a).symm, ?_, ?_⟩
      · exact fun j h => absurd h (Nat.not_lt_zero j)
      · exact fun j h => absurd h (Nat.not_lt_zero j)
  | cons arg argv ih =>
      rw [List.length_cons, tamanho_cons] at hfit
      apply Copiados.copyArg (ih (i + 1) (by omega))
      rw [tamanho_cons]
      omega

end Loop

section Created

variable {kmalloc : ℕ → Option UInt32} {taskBase entry got tcb : UInt32} {argv : List CString} {m m' : Ram} {t : TCB}

theorem argvCopy_eq (top : UInt32) (argc : ℕ) :
    argvCopy top argc = (top &&& ~~~3) - UInt32.ofNat (4 * (argc + 1)) := sub_four_mul_and_not top (argc + 1)

theorem frame_eq (top : UInt32) :
    ((top - argsAreaSize) &&& ~~~3) - UInt32.ofNat 78 = (top &&& ~~~3) - UInt32.ofNat 590 := by
  have hsize : argsAreaSize = UInt32.ofNat (4 * 128) := rfl
  rw [hsize, sub_four_mul_and_not, sub_ofNat_sub]

/-- The arguments and the frame have a common byte when the arguments take more than their area. -/
theorem Intactos.fits {top : UInt32}
    (h : Intactos (argvCopy top argv.length) argv ⟨((top - argsAreaSize) &&& ~~~3) - UInt32.ofNat 78, 78⟩ m) :
    4 * (argv.length + 1) + tamanho argv ≤ 512 := by
  rw [frame_eq] at h
  by_contra hbig
  -- the highest byte of the frame
  have hframe : (top &&& ~~~3) - UInt32.ofNat 513 ∈ Span.mk ((top &&& ~~~3) - UInt32.ofNat 590) 78 :=
    mem_span_below _ (by decide) (by decide)
  by_cases harray : 512 < 4 * (argv.length + 1)
  · apply h.array _ _ hframe
    rw [argvCopy_eq]
    exact mem_span_below _ (by omega) (by omega)
  · obtain ⟨i, hi, hlt, hle⟩ := exists_string argv (t := 513 - 4 * (argv.length + 1)) (by omega) (by omega)
    have hdrop := tamanho_drop hi
    apply h.strings i hi _ _ hframe
    rw [lugar, argvCopy_eq, sub_ofNat_sub]
    exact mem_span_below _ (by omega) (by omega)

theorem copyArgsIntoSlot_copied (top : UInt32) (argv : List CString) (m : Ram)
    (hfit : 4 * (argv.length + 1) + tamanho argv ≤ 2 ^ 32) :
    Copiados (argvCopy top argv.length) argv 0
        ((copyArgsIntoSlot top argv m).1, lugar (argvCopy top argv.length) argv 0) ∧
      Stored (copyArgsIntoSlot top argv m).1 (argvCopy top argv.length + UInt32.ofNat (4 * argv.length))
        (bytes32 0) := by
  have hloop := copiados (argvCopy top argv.length) m argv 0 (by omega)
  rw [copyArgsIntoSlot]
  refine ⟨⟨rfl, ?_, ?_⟩, stored_write _ _ (bytes32_fits 0)⟩
  · intro j hj
    obtain ⟨hdrop, hle⟩ := tamanho_bounds hj
    apply (hloop.textos j hj).write (by rw [length_texto]; omega)
    rw [length_texto]
    exact string_disjoint_array _ hj (by omega)
  · intro j hj
    apply (hloop.ponteiros j hj).write (bytes32_fits _)
    rw [length_bytes32, length_bytes32]
    exact disjoint_above_above _ (by omega) (by omega)

/-- The copied arguments survive exactly when they fit into their area. -/
theorem task_args_intact_iff (h : taskCreateFromElf kmalloc taskBase entry got argv m = some (tcb, t, m')) :
    Intactos (argvCopy (taskBase + slotSize) argv.length) argv ⟨t.sp, 78⟩ m' ↔
      4 * (argv.length + 1) + tamanho argv ≤ argsAreaSize.toNat := by
  obtain ⟨hsp, hm⟩ := taskCreateFromElf_frame h
  constructor
  · intro hi
    rw [hsp] at hi
    exact hi.fits
  · intro hfit
    change 4 * (argv.length + 1) + tamanho argv ≤ 512 at hfit
    obtain ⟨hargs, hnull⟩ := copyArgsIntoSlot_copied (taskBase + slotSize) argv m (by omega)
    have hbelow : t.sp = argvCopy (taskBase + slotSize) argv.length - UInt32.ofNat (590 - 4 * (argv.length + 1)) := by
      rw [hsp, frame_eq, argvCopy_eq, sub_ofNat_sub, Nat.add_sub_cancel' (by omega)]
    generalize argvCopy (taskBase + slotSize) argv.length = a at hargs hnull hbelow hm ⊢
    have hstring (j : ℕ) (hj : j < argv.length) :
        (Span.mk (lugar a argv j) (argv[j].1.length + 1)).Disjoint ⟨t.sp, 78⟩ := by
      obtain ⟨hdrop, hle⟩ := tamanho_bounds hj
      apply Span.disjoint_comm.mp
      rw [hbelow]
      exact disjoint_below_below a (by omega) (by omega) (by omega)
    have harray {k p : ℕ} (hk : k + p ≤ 4 * (argv.length + 1)) :
        (Span.mk (a + UInt32.ofNat k) p).Disjoint ⟨t.sp, 78⟩ := by
      apply Span.disjoint_comm.mp
      rw [hbelow]
      exact disjoint_below_above a (by omega) (by omega)
    have hword {k : ℕ} {w : UInt32} (hk : k < argv.length + 1)
        (hw : Stored (copyArgsIntoSlot (taskBase + slotSize) argv m).1 (a + UInt32.ofNat (4 * k)) (bytes32 w)) :
        load32 m' (a + UInt32.ofNat (4 * k)) = w := by
      apply load32_of_stored
      rw [hm]
      apply hw.write (bytes32_fits _)
      rw [length_bytes32, length_frame]
      exact harray (by omega)
    refine ⟨?_, hword (Nat.lt_succ_self _) hnull, ?_, hstring⟩
    · intro i hi
      have hentry := hargs.ponteiros i hi
      rw [Nat.zero_add] at hentry
      obtain ⟨hdrop, hle⟩ := tamanho_bounds hi
      rw [hword (by omega) hentry, hm]
      apply (hargs.textos i hi).write (by rw [length_texto]; omega)
      rw [length_texto, length_frame]
      exact hstring i hi
    · have hfirst := harray (k := 0) (Nat.le_of_eq (Nat.zero_add _))
      rwa [show a + UInt32.ofNat 0 = a from UInt32.add_zero a] at hfirst

/-- One argument of `n` characters. -/
def argumento (n : ℕ) : CString := ⟨List.replicate n 0x61, by simp⟩

theorem tamanho_argumento (n : ℕ) : tamanho [argumento n] = n + 1 := by
  rw [tamanho_cons, argumento, List.length_replicate]
  rfl

theorem task_args_intact_of_short : ∃ t m',
    taskCreateFromElf (fun _ => some 0x94000) 0xD2000 0x100 0x1000 [argumento 503] (fun _ => 0) = some (0x94000, t, m') ∧
      Intactos (argvCopy (0xD2000 + slotSize) [argumento 503].length) [argumento 503] ⟨t.sp, 78⟩ m' := by
  obtain ⟨t, m', h⟩ := created_of_kmalloc (fun _ => some 0x94000) rfl 0xD2000 0x100 0x1000 [argumento 503] fun _ => 0
  refine ⟨t, m', h, (task_args_intact_iff h).mpr ?_⟩
  rw [tamanho_argumento, List.length_singleton]
  decide

/-- The frame is built over the last of these characters. -/
theorem task_args_overwritten : ∃ t m',
    taskCreateFromElf (fun _ => some 0x94000) 0xD2000 0x100 0x1000 [argumento 504] (fun _ => 0) = some (0x94000, t, m') ∧
      ¬ Intactos (argvCopy (0xD2000 + slotSize) [argumento 504].length) [argumento 504] ⟨t.sp, 78⟩ m' := by
  obtain ⟨t, m', h⟩ := created_of_kmalloc (fun _ => some 0x94000) rfl 0xD2000 0x100 0x1000 [argumento 504] fun _ => 0
  refine ⟨t, m', h, ?_⟩
  intro hi
  rw [(taskCreateFromElf_frame h).1] at hi
  have hfits := hi.fits
  rw [tamanho_argumento, List.length_singleton] at hfits
  exact absurd hfits (by decide)

end Created

end Orion68.TaskArgs
