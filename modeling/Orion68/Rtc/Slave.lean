import Orion68.Rtc.Edges

namespace Orion68.I2cbb

open Interactions TwoWire Prog

variable {σ α : Type} {d : Slave σ} {f g : Phase} {m : Bool} {t : Link × σ} {s : σ} {n : ℕ} {data : Byte}

def barramento (d : Slave σ) (f : Phase) (t : Turn × σ) : Bus σ :=
  ⟨⟨(niveis f).scl, (niveis f).sda && (Turn.link d t).drive, none⟩, (niveis f).sda, (Turn.link d t, t.2)⟩

theorem wire_pulso (v : Bool) (k : Linhas α) :
    exec (wire d) (ask (.sda v) fun _ => ask (.scl true) fun _ => ask (.scl false) fun _ => k) (Bus.low m t) =
      exec (wire d) k (Bus.low v (d.clocked (v && t.1.drive) t)) := by
  simp only [exec, sda_low, scl_rise, scl_fall]

theorem wire_leitura (k : Bool → Linhas α) :
    exec (wire d) (ask (.scl true) fun _ => ask .read fun b => ask (.scl false) fun _ => k b) (Bus.low m t) =
      exec (wire d) (k (m && t.1.drive)) (Bus.low m (d.clocked (m && t.1.drive) t)) := by
  simp only [exec, scl_rise, read_high]
  exact congrArg (exec (wire d) _) scl_fall

theorem wire_shiftOut (data : Byte) (m first : Bool) (bits : List Bool) (s : σ) (h : bits.length + (n + 1) = 8) :
    ∃ v, exec (wire d) (shiftOut (n + 1) data) (Bus.low m (.receives first bits, s)) =
      some ((), Bus.low v (d.taken first (ofMsb (bits ++ topBits (n + 1) data)) s)) := by
  induction n generalizing data m bits with
  | zero =>
      refine ⟨data.msb, ?_⟩
      rw [shiftOut_succ, wire_pulso]
      change exec _ (done ()) (Bus.low _ (d.clocked (data.msb && true) _)) = _
      rw [Bool.and_true, clocked_last (by omega)]
      rfl
  | succ n ih =>
      obtain ⟨v, hv⟩ := ih (data <<< 1) data.msb (bits ++ [data.msb])
        (by rw [List.length_append, List.length_singleton]; omega)
      refine ⟨v, ?_⟩
      rw [shiftOut_succ, wire_pulso]
      change exec _ _ (Bus.low _ (d.clocked (data.msb && true) _)) = _
      rw [Bool.and_true, clocked_receives (by omega), hv, List.append_assoc]
      rfl

theorem wire_shiftOut_off (n : ℕ) (data : Byte) (m : Bool) (s : σ) :
    ∃ v, exec (wire d) (shiftOut n data) (Bus.low m (.off, s)) = some ((), Bus.low v (.off, s)) := by
  induction n generalizing data m with
  | zero => exact ⟨m, rfl⟩
  | succ n ih =>
      rw [shiftOut_succ, wire_pulso]
      exact ih (data <<< 1) data.msb

theorem wire_shiftInto (data : Byte) (s : σ) {bits : List Bool} (h : bits ≠ []) :
    exec (wire d) (shiftInto bits.length data) (Bus.low true (.sends bits, s)) =
      some (bits.foldl shiftIn data, Bus.low true (.awaits, s)) := by
  induction bits generalizing data with
  | nil => exact absurd rfl h
  | cons b bits ih =>
      refine (wire_leitura fun b => shiftInto bits.length (shiftIn data b)).trans ?_
      cases bits with
      | nil => rfl
      | cons c bits => exact ih _ (List.cons_ne_nil c bits)

theorem wire_shiftInto_off : exec (wire d) (shiftInto n data) (Bus.low true (.off, s)) =
    some ((List.replicate n true).foldl shiftIn data, Bus.low true (.off, s)) := by
  induction n generalizing data with
  | zero => rfl
  | succ n ih =>
      refine (wire_leitura fun b => shiftInto n (shiftIn data b)).trans ?_
      exact ih

theorem wire_i2cStart (scl : Bool) (held : Option Bool) (h : t.1.drive = true) :
    exec (wire d) i2cStart ⟨⟨scl, true, held⟩, true, t⟩ = some ((), Bus.low false (.receives true [], d.start t.2)) := by
  change exec (wire d) (ask (.sda true) fun _ => ask (.scl true) fun _ => ask (.sda false) fun _ => ask (.scl false) done) _ = _
  have hreceives : (Link.receives true []).drive = true := rfl
  cases scl <;> simp [exec, wire, Bus.move, Bus.low, Lines.clock, Lines.data, Slave.sees, h, hreceives]

theorem wire_i2cStop (h : t.1.drive = true) :
    exec (wire d) i2cStop (Bus.low true t) = some ((), ⟨⟨true, true, none⟩, true, (.off, d.stop t.2)⟩) := by
  change exec (wire d) (ask (.sda false) fun _ => ask (.scl true) fun _ => ask (.sda true) done) _ = _
  have hoff : Link.off.drive = true := rfl
  simp [exec, wire, Bus.move, Bus.low, Lines.clock, Lines.data, Slave.sees, h, hoff]

theorem wire_ack : exec (wire d) (ask (.sda true) fun _ => ask (.scl true) fun _ => ask .read fun ack =>
    ask (.scl false) fun _ => done ack) (Bus.low m t) =
      some (t.1.drive, Bus.low true (d.clocked t.1.drive t)) := by
  rw [exec, sda_low, wire_leitura, Bool.true_and]
  rfl

theorem wire_i2cWriteByte (first : Bool) :
    exec (wire d) (i2cWriteByte data) (Bus.low m (.receives first [], s)) =
      some (!(if first then d.address data s else d.receive data s).1,
        Bus.low true (d.clocked (d.taken first data s).1.drive (d.taken first data s))) := by
  obtain ⟨v, hv⟩ := wire_shiftOut (d := d) (n := 7) data m first [] s rfl
  rw [topBits_eight, List.nil_append, ofMsb_msbFirst] at hv
  rw [i2cWriteByte, exec_bind, hv]
  refine wire_ack.trans ?_
  have hdrive : (d.taken first data s).1.drive = !(if first then d.address data s else d.receive data s).1 := by
    rw [Slave.taken]
    cases (if first then d.address data s else d.receive data s).1 <;> rfl
  rw [hdrive]

theorem wire_i2cWriteByte_off : exec (wire d) (i2cWriteByte data) (Bus.low m (.off, s)) =
    some (true, Bus.low true (.off, s)) := by
  obtain ⟨v, hv⟩ := wire_shiftOut_off (d := d) 8 data m s
  rw [i2cWriteByte, exec_bind, hv]
  exact wire_ack

theorem wire_lido (ack : Bool) (b : Byte) : exec (wire d) (ask (.sda !ack) fun _ => ask (.scl true) fun _ =>
    ask (.scl false) fun _ => ask (.sda true) fun _ => done b) (Bus.low m t) =
      some (b, Bus.low true (d.clocked (!ack && t.1.drive) t)) := by
  rw [wire_pulso, exec, sda_low]
  rfl

theorem wire_i2cReadByte (ack : Bool) :
    exec (wire d) (i2cReadByte ack) (Bus.low m (.sends (msbFirst (d.shifts s)), s)) =
      some (d.shifts s, Bus.low true (d.clocked (!ack) (.awaits, s))) := by
  have hbits := wire_shiftInto (d := d) 0 s (show msbFirst (d.shifts s) ≠ [] from List.cons_ne_nil _ _)
  rw [length_msbFirst] at hbits
  rw [i2cReadByte_eq, exec, sda_low, exec_bind, hbits]
  refine (wire_lido ack _).trans ?_
  change some (ofMsb (msbFirst (d.shifts s)), Bus.low true (d.clocked (!ack && true) _)) = _
  rw [ofMsb_msbFirst, Bool.and_true]

theorem wire_i2cReadByte_off (ack : Bool) : exec (wire d) (i2cReadByte ack) (Bus.low m (.off, s)) =
    some (0xFF, Bus.low true (.off, s)) := by
  rw [i2cReadByte_eq, exec, sda_low, exec_bind, wire_shiftInto_off]
  exact wire_lido ack _

theorem wire_primitiva {o : Order} {t : Turn × σ} (h : format f o = some g) (ha : f.agrees t.1) :
    exec (wire d) (primitiva o) (barramento d f t) = some ((bytes d o t).1, barramento d g (bytes d o t).2) := by
  obtain ⟨turn, s⟩ := t
  cases o with
  | start =>
      cases f <;> cases h
      · obtain rfl := ha
        exact wire_i2cStart true none rfl
      · rcases ha with rfl | rfl <;> exact wire_i2cStart false none rfl
      · obtain rfl := ha
        exact wire_i2cStart false none rfl
  | stop =>
      cases f <;> cases h
      · rcases ha with rfl | rfl <;> exact wire_i2cStop rfl
      · obtain rfl := ha
        exact wire_i2cStop rfl
  | write b =>
      cases f <;> cases h
      · obtain rfl := ha
        refine (wire_i2cWriteByte true).trans ?_
        simp only [bytes, Slave.taken, if_true]
        cases (d.address b s).1 <;> cases b.getLsbD 0 <;> rfl
      · rcases ha with rfl | rfl
        · refine (wire_i2cWriteByte false).trans ?_
          simp only [bytes, Slave.taken, Bool.false_eq_true, if_false]
          cases (d.receive b s).1 <;> rfl
        · exact wire_i2cWriteByte_off
  | read ack =>
      cases f <;> cases h
      rcases ha with rfl | rfl
      · refine (wire_i2cReadByte ack).trans ?_
        cases ack <;> rfl
      · refine (wire_i2cReadByte_off ack).trans ?_
        cases ack <;> rfl

theorem wire_calls {p : Driver α} (hp : Follows format p f g) {t : Turn × σ} (ha : f.agrees t.1) :
    exec (wire d) (handle primitiva p) (barramento d f t) =
      (exec (bytes d) p t).map fun x => (x.1, barramento d g x.2) :=
  hp.exec_handle (V := fun f t => f.agrees t.1) (fun hf ha => ⟨wire_primitiva hf ha, agrees_bytes hf ha⟩) ha

theorem wire_free {p : Driver α} (hp : Follows format p .free .free) (s : σ) :
    exec (wire d) (handle primitiva p) (barramento d .free (.off, s)) =
      (exec (bytes d) p (.off, s)).map fun x => (x.1, barramento d .free (.off, x.2.2)) := by
  have hfree : Phase.free.agrees (Turn.off, s).1 := rfl
  rw [wire_calls hp hfree]
  cases he : exec (bytes d) p (.off, s) with
  | none => rfl
  | some x =>
      have hoff : Phase.free.agrees x.2.1 := hp.exec_keeps (V := fun f t => f.agrees t.1) agrees_bytes hfree he
      rw [Option.map_some, Option.map_some, ← show x.2.1 = .off from hoff]

/-- The same after `rtc_init`, from any levels of the lines, with a slave that leaves them alone. -/
theorem wire_sessao (q : Byte → Cliente α) (scl sda : Bool) (held : Option Bool) (s : σ) :
    exec (wire d) (sessao q) ⟨⟨scl, sda, held⟩, sda, (.off, s)⟩ =
      (exec (bytes d) (ordens q) (.off, if sda then s else d.stop s)).map
        fun x => (x.1, barramento d .free (.off, x.2.2)) := by
  rw [sessao_eq, ← wire_free (follows_ordens q)]
  have hoff : Link.off.drive = true := rfl
  obtain ⟨k, hk⟩ : ∃ k, ordens q = ask .start k := ⟨_, rfl⟩
  have hstart (held : Option Bool) (s : σ) :
      exec (wire d) (handle primitiva (ask .start k)) ⟨⟨true, true, held⟩, true, (.off, s)⟩ =
        exec (wire d) (handle primitiva (k ())) (Bus.low false (.receives true [], d.start s)) := by
    change exec _ (i2cStart >>= fun a => handle primitiva (k a)) _ = _
    rw [exec_bind, wire_i2cStart true held rfl]
    rfl
  rw [hk, exec, exec, barramento]
  refine Eq.trans ?_ (hstart none (if sda then s else d.stop s)).symm
  cases scl <;> cases sda <;>
    simp [wire, Bus.move, Lines.clock, Lines.data, Slave.sees, hoff, hstart]

end Orion68.I2cbb
