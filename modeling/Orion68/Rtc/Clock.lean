import Orion68.Rtc.Chips

namespace Orion68.I2cbb

open Interactions TwoWire

section Bcd

/-- A time of the years 0 to 99. -/
structure Data extends RtcTime where
  sec_lt : sec < 60
  min_lt : min < 60
  hour_lt : hour < 24
  mday_pos : 1 ≤ mday
  mday_le : mday ≤ 31
  mon_pos : 1 ≤ mon
  mon_le : mon ≤ 12
  year_le : year ≤ 99

end Bcd

variable {ciclo : ℕ} {r : Ds3231} {e : At24c32} {t u : RtcTime}

/-- The time in the clock's registers, as `ds3231_read_time` reads it. -/
def hora (f : ℕ → Byte) : RtcTime :=
  ⟨bcd2bin (f 0 &&& 0x7F), bcd2bin (f 1), bcd2bin (f 2 &&& 0x3F), bcd2bin (f 4), bcd2bin (f 5 &&& 0x1F), bcd2bin (f 6)⟩

theorem and_allOnes (f : ℕ → Byte) : (fun i => f i &&& 0xFF) = f := by
  funext i
  exact BitVec.and_allOnes

theorem exec_ds3231ReadTime : exec (bytes (placa ciclo)) (ds3231ReadTime (some u)) (.off, (r, e)) =
    some ((0, some (hora r.registradores)), (.off, (⟨r.registradores, 7, .fora⟩, { e with pagina := [], etapa := .fora }))) := by
  -- The EEPROM leaves the data line alone while the clock sends.
  have h : exec (bytes (placa ciclo)) (ds3231ReadTime (some u)) (.off, (r, e)) =
      some ((0, some (hora fun i => r.registradores i &&& 0xFF)),
        (.off, (⟨r.registradores, 7, .fora⟩, { e with pagina := [], etapa := .fora }))) := rfl
  rw [h, and_allOnes]

theorem exec_ds3231SetTime (ciclo : ℕ) (r : Ds3231) (e : At24c32) (t : RtcTime) :
    ∃ f, exec (bytes (placa ciclo)) (ds3231SetTime (some t)) (.off, (r, e)) =
      some ((), (.off, (⟨f, 7, .fora⟩, { e with pagina := [], etapa := .fora }))) ∧
      f 0 = bin2bcd t.sec &&& 0x7F ∧ f 1 = bin2bcd t.min &&& 0x7F ∧ f 2 = bin2bcd t.hour &&& 0x7F ∧
      f 4 = bin2bcd t.mday &&& 0x3F ∧ f 5 = bin2bcd t.mon &&& 0x9F ∧ f 6 = bin2bcd t.year &&& 0xFF :=
  ⟨_, rfl, rfl, rfl, rfl, rfl, rfl, rfl⟩

theorem hora_ajustada (t : Data) {f : ℕ → Byte} (h₀ : f 0 = bin2bcd t.sec &&& 0x7F)
    (h₁ : f 1 = bin2bcd t.min &&& 0x7F) (h₂ : f 2 = bin2bcd t.hour &&& 0x7F) (h₄ : f 4 = bin2bcd t.mday &&& 0x3F)
    (h₅ : f 5 = bin2bcd t.mon &&& 0x9F) (h₆ : f 6 = bin2bcd t.year &&& 0xFF) : hora f = t.toRtcTime := by
  have hsec : ∀ v : Byte, v < 60 → bcd2bin (bin2bcd v &&& 0x7F &&& 0x7F) = v := by decide +kernel
  have hmin : ∀ v : Byte, v < 60 → bcd2bin (bin2bcd v &&& 0x7F) = v := by decide +kernel
  have hhour : ∀ v : Byte, v < 24 → bcd2bin (bin2bcd v &&& 0x7F &&& 0x3F) = v := by decide +kernel
  have hmday : ∀ v : Byte, v ≤ 31 → bcd2bin (bin2bcd v &&& 0x3F) = v := by decide +kernel
  have hmon : ∀ v : Byte, v ≤ 12 → bcd2bin (bin2bcd v &&& 0x9F &&& 0x1F) = v := by decide +kernel
  have hyear : ∀ v : Byte, v ≤ 99 → bcd2bin (bin2bcd v &&& 0xFF) = v := by decide +kernel
  rw [hora, h₀, h₁, h₂, h₄, h₅, h₆, hsec _ t.sec_lt, hmin _ t.min_lt, hhour _ t.hour_lt, hmday _ t.mday_le,
    hmon _ t.mon_le, hyear _ t.year_le]

theorem exec_set_read (ciclo : ℕ) (t : Data) (u : RtcTime) (s : Placa) : ∃ s', exec (bytes (placa ciclo))
    (do ds3231SetTime (some t.toRtcTime); ds3231ReadTime (some u)) (.off, s) = some ((0, some t.toRtcTime), (.off, s')) := by
  obtain ⟨f, hf, h₀, h₁, h₂, h₄, h₅, h₆⟩ := exec_ds3231SetTime ciclo s.1 s.2 t.toRtcTime
  rw [exec_bind, hf, Option.bind_some, exec_ds3231ReadTime, hora_ajustada t h₀ h₁ h₂ h₄ h₅ h₆]
  exact ⟨_, rfl⟩

/-- On the lines: `rtc_init` and then any calls signal their orders and nothing else, whatever the
data line reads; a conforming slave has the run it has byte by byte; and a date that is set on the
board is the date that is read. -/
theorem i2cbb_correct {α : Type} (q : Byte → Cliente α) :
    (∀ l seen r, exec overhear (sessao q) ⟨l, seen, r⟩ =
      (exec take (ordens q) ([], r)).map fun x => (x.1, escuta (seen ++ ocioso l) .free x.2)) ∧
    (∀ (σ : Type) (d : Slave σ) scl sda held s, exec (wire d) (sessao q) ⟨⟨scl, sda, held⟩, sda, (.off, s)⟩ =
      (exec (bytes d) (ordens q) (.off, if sda then s else d.stop s)).map
        fun x => (x.1, barramento d .free (.off, x.2.2))) ∧
    ∀ ciclo (t : Data) u s, ∃ s', exec (wire (placa ciclo))
      (handle primitiva (do ds3231SetTime (some t.toRtcTime); ds3231ReadTime (some u)))
      (barramento (placa ciclo) .free (.off, s)) =
        some ((0, some t.toRtcTime), barramento (placa ciclo) .free (.off, s')) := by
  refine ⟨exec_sessao q, fun σ d => wire_sessao q, ?_⟩
  intro ciclo t u s
  obtain ⟨s', hs⟩ := exec_set_read ciclo t u s
  have hformat := (follows_ds3231SetTime (some t.toRtcTime)).bind fun _ => follows_ds3231ReadTime (some u)
  rw [wire_free hformat, hs]
  exact ⟨s', rfl⟩

/-- 31 December 2099, 23:59:58. -/
def fimDeAno : Data where
  sec := 58
  min := 59
  hour := 23
  mday := 31
  mon := 12
  year := 99
  sec_lt := by decide
  min_lt := by decide
  hour_lt := by decide
  mday_pos := by decide
  mday_le := by decide
  mon_pos := by decide
  mon_le := by decide
  year_le := by decide

/-- A board whose clock is at zero and whose EEPROM is erased. -/
def placaNova : Placa := (⟨fun _ => 0, 0, .fora⟩, ⟨fun _ => 0xFF, [], 0, 0, [], .fora⟩)

theorem fimDeAno_set_and_read : ∃ s', exec (wire (placa 0))
    (handle primitiva (do ds3231SetTime (some fimDeAno.toRtcTime); ds3231ReadTime (some ⟨0, 0, 0, 0, 0, 0⟩)))
    (barramento (placa 0) .free (.off, placaNova)) =
      some ((0, some fimDeAno.toRtcTime), barramento (placa 0) .free (.off, s')) :=
  (i2cbb_correct (α := Unit) fun _ => pure ()).2.2 0 fimDeAno _ placaNova

end Orion68.I2cbb
