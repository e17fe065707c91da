import Orion68.Rtc.I2cbb

namespace Orion68.I2cbb

open Interactions TwoWire Prog

def niveis : Phase → Lines
  | .free => ⟨true, true, none⟩
  | .started => ⟨false, false, none⟩
  | .writing | .reading | .ended => ⟨false, true, none⟩

def escuta (seen : List Symbol) (f : Phase) (t : List Order × (ℕ → Bool)) : Listener :=
  ⟨niveis f, seen ++ t.1.flatMap Order.signal, t.2⟩

variable {seen : List Symbol} {r : ℕ → Bool} {f g : Phase} {α : Type} {v x : Bool} {n : ℕ} {data : Byte}

theorem sda_baixo : (overhear (.sda v) ⟨⟨false, x, none⟩, seen, r⟩).2 = ⟨⟨false, v, none⟩, seen, r⟩ := by
  simp [overhear, Listener.note, data_low]

theorem scl_sobe : (overhear (.scl true) ⟨⟨false, v, none⟩, seen, r⟩).2 = ⟨⟨true, v, some v⟩, seen, r⟩ := by
  simp [overhear, Listener.note, Lines.clock]

theorem exec_pulso (k : Linhas α) :
    exec overhear (ask (.sda v) fun _ => ask (.scl true) fun _ => ask (.scl false) fun _ => k) ⟨⟨false, x, none⟩, seen, r⟩ =
      exec overhear k ⟨⟨false, v, none⟩, seen ++ [.bit v], r⟩ := by
  simp only [exec, sda_baixo, scl_sobe]
  rfl

/-- The master puts the bits on the line while the clock is low, and none of them while it is high. -/
theorem exec_shiftOut (n : ℕ) (data : Byte) (x : Bool) (seen : List Symbol) (r : ℕ → Bool) :
    ∃ y, exec overhear (shiftOut n data) ⟨⟨false, x, none⟩, seen, r⟩ =
      some ((), ⟨⟨false, y, none⟩, seen ++ (topBits n data).map .bit, r⟩) := by
  induction n generalizing data x seen with
  | zero => exact ⟨x, by rw [topBits, List.map_nil, List.append_nil]; rfl⟩
  | succ n ih =>
      obtain ⟨y, hy⟩ := ih (data <<< 1) data.msb (seen ++ [.bit data.msb])
      refine ⟨y, ?_⟩
      rw [shiftOut_succ, exec_pulso, hy, topBits, List.append_assoc]
      rfl

theorem exec_leitura (k : Bool → Linhas α) :
    exec overhear (ask (.scl true) fun _ => ask .read fun b => ask (.scl false) fun _ => k b) ⟨⟨false, v, none⟩, seen, r⟩ =
      exec overhear (k (r 0)) ⟨⟨false, v, none⟩, seen ++ [.bit v], fun i => r (i + 1)⟩ := by
  simp only [exec, scl_sobe]
  cases v <;> rfl

theorem exec_shiftInto : exec overhear (shiftInto n data) ⟨⟨false, true, none⟩, seen, r⟩ =
    some (((List.range n).map r).foldl shiftIn data,
      ⟨⟨false, true, none⟩, seen ++ (List.replicate n true).map .bit, fun i => r (i + n)⟩) := by
  induction n generalizing data seen r with
  | zero =>
      rw [List.replicate_zero, List.map_nil, List.append_nil]
      rfl
  | succ n ih =>
      rw [List.range_succ_eq_map, List.map_cons, List.foldl_cons, List.map_map]
      refine (exec_leitura (v := true) fun b => shiftInto n (shiftIn data b)).trans (ih.trans ?_)
      rw [List.replicate_succ, List.map_cons, List.append_assoc]
      simp only [Nat.add_assoc, Nat.add_comm n 1]
      rfl

theorem exec_i2cStart (scl : Bool) (held : Option Bool) :
    exec overhear i2cStart ⟨⟨scl, true, held⟩, seen, r⟩ = some ((), ⟨niveis .started, seen ++ [.start], r⟩) := by
  change exec overhear (ask (.sda true) fun _ => ask (.scl true) fun _ => ask (.sda false) fun _ => ask (.scl false) done) _ = _
  cases scl <;> simp [exec, overhear, Listener.note, Lines.clock, Lines.data, niveis]

theorem exec_i2cStop (sda : Bool) :
    exec overhear i2cStop ⟨⟨false, sda, none⟩, seen, r⟩ = some ((), ⟨niveis .free, seen ++ [.stop], r⟩) := by
  change exec overhear (ask (.sda false) fun _ => ask (.scl true) fun _ => ask (.sda true) done) _ = _
  cases sda <;> simp [exec, overhear, Listener.note, Lines.clock, Lines.data, niveis]

theorem exec_i2cWriteByte (sda : Bool) : exec overhear (i2cWriteByte data) ⟨⟨false, sda, none⟩, seen, r⟩ =
    some (r 0, ⟨niveis .writing, seen ++ (msbFirst data ++ [true]).map .bit, fun n => r (n + 1)⟩) := by
  obtain ⟨y, hy⟩ := exec_shiftOut 8 data sda seen r
  rw [i2cWriteByte, exec_bind, hy, topBits_eight, List.map_append, ← List.append_assoc]
  change exec overhear (ask (.sda true) fun _ => ask (.scl true) fun _ => ask .read fun ack => ask (.scl false) fun _ =>
    done ack) _ = _
  rw [exec, sda_baixo, exec_leitura]
  rfl

theorem exec_i2cReadByte (sda ack : Bool) : exec overhear (i2cReadByte ack) ⟨⟨false, sda, none⟩, seen, r⟩ =
    some (ofMsb ((List.range 8).map r),
      ⟨niveis .reading, seen ++ (List.replicate 8 true ++ [!ack]).map .bit, fun n => r (n + 8)⟩) := by
  rw [i2cReadByte_eq, exec, sda_baixo, exec_bind, exec_shiftInto, List.map_append, ← List.append_assoc]
  change exec overhear (ask (.sda !ack) fun _ => ask (.scl true) fun _ => ask (.scl false) fun _ => ask (.sda true) fun _ => _)
    _ = _
  rw [exec_pulso, exec, sda_baixo]
  rfl

theorem escuta_snoc (os : List Order) (o : Order) (f : Phase) (r : ℕ → Bool) :
    escuta seen f (os ++ [o], r) = ⟨niveis f, seen ++ os.flatMap Order.signal ++ o.signal, r⟩ := by
  rw [escuta, List.flatMap_append, List.append_assoc, List.flatMap_singleton]

theorem exec_primitiva {o : Order} {t : List Order × (ℕ → Bool)} (h : format f o = some g) :
    exec overhear (primitiva o) (escuta seen f t) = some ((take o t).1, escuta seen g (take o t).2) := by
  obtain ⟨os, r⟩ := t
  cases o with
  | start =>
      have hg : g = .started := by cases f <;> cases h <;> rfl
      subst hg
      cases f <;> cases h <;> exact (exec_i2cStart _ _).trans (by rw [take, escuta_snoc]; rfl)
  | stop =>
      have hg : g = .free := by cases f <;> cases h <;> rfl
      subst hg
      cases f <;> cases h <;> exact (exec_i2cStop _).trans (by rw [take, escuta_snoc]; rfl)
  | write b =>
      have hg : niveis g = niveis .writing := by
        cases f <;> cases h
        · cases b.getLsbD 0 <;> rfl
        · rfl
      cases f <;> cases h <;> exact (exec_i2cWriteByte _).trans (by rw [take, escuta_snoc, hg]; rfl)
  | read ack =>
      have hg : niveis g = niveis .reading := by
        cases f <;> cases h
        cases ack <;> rfl
      cases f <;> cases h
      exact (exec_i2cReadByte _ _).trans (by rw [take, escuta_snoc, hg]; rfl)

theorem exec_calls (seen : List Symbol) {p : Driver α} (hp : Follows format p f g) (os : List Order) (r : ℕ → Bool) :
    exec overhear (handle primitiva p) (escuta seen f (os, r)) =
      (exec take p (os, r)).map fun x => (x.1, escuta seen g x.2) :=
  hp.exec_handle (V := fun _ _ => True) (fun hf _ => ⟨exec_primitiva hf, trivial⟩) trivial

section Init

/-- What the two steps that set the bus idle can be taken for. -/
def ocioso (l : Lines) : List Symbol := if l.sda then [] else [.stop]

theorem sessao_eq (q : Byte → Cliente α) : sessao q =
    ask (.scl true) fun _ => ask (.sda true) fun _ => handle primitiva (ordens q) := by
  rw [ordens, handle_bind]
  rfl

theorem exec_sessao (q : Byte → Cliente α) (l : Lines) (seen : List Symbol) (r : ℕ → Bool) :
    exec overhear (sessao q) ⟨l, seen, r⟩ =
      (exec take (ordens q) ([], r)).map fun x => (x.1, escuta (seen ++ ocioso l) .free x.2) := by
  rw [sessao_eq, ← exec_calls (seen ++ ocioso l) (follows_ordens q)]
  -- The first START leaves the lines at the same levels, whether they have just risen or not.
  obtain ⟨k, hk⟩ : ∃ k, ordens q = ask .start k := ⟨_, rfl⟩
  have hstart (held : Option Bool) (seen : List Symbol) :
      exec overhear (handle primitiva (ask .start k)) ⟨⟨true, true, held⟩, seen, r⟩ =
        exec overhear (handle primitiva (k ())) ⟨niveis .started, seen ++ [.start], r⟩ := by
    change exec overhear (i2cStart >>= fun a => handle primitiva (k a)) _ = _
    rw [exec_bind, exec_i2cStart]
    rfl
  rw [hk, escuta, niveis, hstart, exec, exec]
  obtain ⟨scl, sda, held⟩ := l
  cases scl <;> cases sda <;> simp [overhear, Listener.note, Lines.clock, Lines.data, ocioso, hstart]

end Init

end Orion68.I2cbb
