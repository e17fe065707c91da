import Orion68.Vga.Line

namespace Orion68.VgaTermination

open Loops Vga VgaAccesses VgaCursor VgaLine

section Strokes

variable {n : Nat} {color : UInt8} {t : Tela} {x y h : Int}

theorem drawVLine_returns (hend : short y + short h ≤ 32767) (hn : 65536 < n) :
    (drawVLine n x y h color t).isSome := by
  have hy := short_bounds y
  have hh := short_bounds h
  obtain ⟨t', ht', -⟩ : ∃ t', drawVLine n x y h color t = some t' ∧ True := by
    refine whileLoop_map_total (I := fun s : Int × Tela => short y ≤ s.1 ∧ s.1 ≤ 32767)
      (fun s => (short y + short h - s.1).toNat) ?_ (fun _ _ _ => trivial) ⟨Int.le_refl _, hy.2⟩ ?_
    · rintro ⟨i, u⟩ ⟨hlow, hhigh⟩ hc
      have hlt : i < short y + short h := of_decide_eq_true hc
      have hnext : short (i + 1) = i + 1 := short_eq (by omega) (by omega)
      refine ⟨_, rfl, ?_, ?_⟩
      · dsimp only
        omega
      · dsimp only
        omega
    · dsimp only
      omega
  exact Option.isSome_of_eq_some ht'

theorem drawVLine_hangs (hend : 32767 < short y + short h) (n : Nat) : drawVLine n x y h color t = none := by
  refine Option.map_eq_none_iff.mpr (whileLoop_diverges (I := fun s : Int × Tela => s.1 ≤ 32767) ?_ ?_ n ?_)
  · rintro ⟨i, u⟩ hi
    exact decide_eq_true (Int.lt_of_le_of_lt hi hend)
  · rintro ⟨i, u⟩ s' - hs
    obtain rfl := Option.some.inj hs
    exact (short_bounds _).2
  · exact (short_bounds y).2

theorem rodada_x0 (steep : Bool) (dx dy ystep : Int) (s : Bresenham) :
    (rodada steep dx dy ystep color s).x0 = short (s.x0 + 1) := by
  rw [rodada]
  split <;> rfl

theorem traca_returns {steep : Bool} {x0 y0 x1 y1 : Int} (h0 : -32768 ≤ x0) (h1 : x1 < 32767) (h01 : x0 ≤ x1)
    (hn : 65536 < n) : (traca n steep x0 y0 x1 y1 color t).isSome := by
  obtain ⟨t', ht', -⟩ : ∃ t', traca n steep x0 y0 x1 y1 color t = some t' ∧ True := by
    refine whileLoop_map_total (I := fun s : Bresenham => x0 ≤ s.x0 ∧ s.x0 ≤ x1 + 1)
      (fun s => (x1 + 1 - s.x0).toNat) ?_ (fun _ _ _ => trivial) ⟨Int.le_refl x0, by dsimp only; omega⟩ ?_
    · intro s hI hc
      have hlt : s.x0 ≤ x1 := of_decide_eq_true hc
      have hnext : short (s.x0 + 1) = s.x0 + 1 := short_eq (by omega) (by omega)
      refine ⟨_, rfl, ?_, ?_⟩
      · rw [rodada_x0, hnext]
        omega
      · rw [rodada_x0, hnext]
        omega
    · dsimp only
      omega
  exact Option.isSome_of_eq_some ht'

theorem traca_hangs {steep : Bool} {x0 y0 y1 : Int} (h0 : x0 ≤ 32767) (n : Nat) :
    traca n steep x0 y0 32767 y1 color t = none := by
  refine Option.map_eq_none_iff.mpr (whileLoop_diverges (I := fun s : Bresenham => s.x0 ≤ 32767) ?_ ?_ n h0)
  · exact fun s hs => decide_eq_true hs
  · intro s s' _ hs
    rw [← Option.some.inj hs, rodada_x0]
    exact (short_bounds _).2

/-- The coordinate along which a line goes, where it is greater. -/
def fimMaior (x0 y0 x1 y1 : Int) : Int :=
  if (short y1 - short y0).natAbs > (short x1 - short x0).natAbs then max (short y0) (short y1)
  else max (short x0) (short x1)

theorem exists_traca (x0 y0 x1 y1 : Int) : ∃ steep a b e, -32768 ≤ a ∧ a ≤ fimMaior x0 y0 x1 y1 ∧
    ∀ n color t, drawLine n x0 y0 x1 y1 color t = traca n steep a b (fimMaior x0 y0 x1 y1) e color t := by
  have hx0 := short_bounds x0
  have hy0 := short_bounds y0
  have hx1 := short_bounds x1
  have hy1 := short_bounds y1
  simp only [drawLine_eq, fimMaior]
  split
  next =>
    split
    next h =>
      rw [max_eq_left (Int.le_of_lt h)]
      exact ⟨true, short y1, short x1, short x0, hy1.1, Int.le_of_lt h, fun _ _ _ => rfl⟩
    next h =>
      rw [max_eq_right (Int.not_lt.mp h)]
      exact ⟨true, short y0, short x0, short x1, hy0.1, Int.not_lt.mp h, fun _ _ _ => rfl⟩
  next =>
    split
    next h =>
      rw [max_eq_left (Int.le_of_lt h)]
      exact ⟨false, short x1, short y1, short y0, hx1.1, Int.le_of_lt h, fun _ _ _ => rfl⟩
    next h =>
      rw [max_eq_right (Int.not_lt.mp h)]
      exact ⟨false, short x0, short y0, short y1, hx0.1, Int.not_lt.mp h, fun _ _ _ => rfl⟩

end Strokes

section Circles

variable {n : Nat} {color : UInt8} {t : Tela} {desenha : Arco → Tela → Option Tela} {r : Int}

/-- An eighth of a circle of this radius. -/
structure Dentro (r : Int) (a : Arco) : Prop where
  x : 0 ≤ a.x ∧ a.x ≤ r
  y : 0 ≤ a.y ∧ a.y ≤ r

theorem avanca_x (a : Arco) : a.avanca.x = short (a.x + 1) := by
  rw [Arco.avanca]
  split <;> rfl

theorem avanca_y (a : Arco) : a.avanca.y = if a.f ≥ 0 then short (a.y - 1) else a.y := by
  rw [Arco.avanca]
  split <;> rfl

theorem Dentro.avanca {a : Arco} (h : Dentro r a) (hr : r < 256) (hlt : a.x < a.y) :
    Dentro r a.avanca ∧ a.avanca.y - a.avanca.x < a.y - a.x := by
  obtain ⟨⟨hx, hx'⟩, hy, hy'⟩ := h
  have hnext : a.avanca.x = a.x + 1 := (avanca_x a).trans (short_eq (by omega) (by omega))
  have hdown : a.avanca.y = a.y - 1 ∨ a.avanca.y = a.y := by
    rw [avanca_y]
    split
    · exact .inl (short_eq (by omega) (by omega))
    · exact .inr rfl
  exact ⟨⟨⟨by omega, by omega⟩, by omega, by omega⟩, by omega⟩

theorem percorre_returns (hr : 0 ≤ r ∧ r < 256)
    (hround : ∀ a u, Dentro r a → (desenha a u).isSome) (hn : 256 < n) : (percorre n desenha r t).isSome := by
  obtain ⟨t', ht', -⟩ : ∃ t', percorre n desenha r t = some t' ∧ True := by
    refine whileLoop_map_total (I := fun s : Arco × Tela => Dentro r s.1) (fun s => (s.1.y - s.1.x).toNat) ?_
      (fun _ _ _ => trivial) ⟨⟨Int.le_refl 0, hr.1⟩, hr.1, Int.le_refl r⟩ ?_
    · rintro ⟨a, u⟩ ha hc
      have hlt : a.x < a.y := of_decide_eq_true hc
      obtain ⟨hnext, hnear⟩ : Dentro r a.avanca ∧ a.avanca.y - a.avanca.x < a.y - a.x := ha.avanca hr.2 hlt
      obtain ⟨u', hu⟩ := Option.isSome_iff_exists.mp (hround a.avanca u hnext)
      refine ⟨(a.avanca, u'), ?_, hnext, ?_⟩
      · dsimp only
        rw [hu]
        rfl
      · change (a.avanca.y - a.avanca.x).toNat < (a.y - a.x).toNat
        omega
    · dsimp only [Arco.inicio]
      omega
  exact Option.isSome_of_eq_some ht'

theorem percorre_hangs (hr : 0 < r) (hfirst : ∀ u, desenha (Arco.inicio r).avanca u = none) (n : Nat) :
    percorre n desenha r t = none := by
  refine Option.map_eq_none_iff.mpr (whileLoop_of_body_none ?_ ?_ n)
  · exact decide_eq_true hr
  · exact Option.map_eq_none_iff.mpr (hfirst t)

variable {x0 y0 delta : Int} {cornername : UInt8}

theorem drawCircle_returns (hr : 0 ≤ short r ∧ short r < 256) (hn : 256 < n) :
    (drawCircle n x0 y0 r color t).isSome := by
  rw [drawCircle]
  exact percorre_returns hr (fun _ _ _ => rfl) hn

theorem drawCircleHelper_returns (hr : 0 ≤ short r ∧ short r < 256) (hn : 256 < n) :
    (drawCircleHelper n x0 y0 r cornername color t).isSome := by
  rw [drawCircleHelper]
  exact percorre_returns hr (fun _ _ _ => rfl) hn

/-- The lines of one round of `fillCircleHelper`. -/
def ladosDe (n : Nat) (x0 y0 : Int) (cornername : UInt8) (delta : Int) (color : UInt8) (a : Arco) (t : Tela) :
    Option Tela :=
  (if cornername &&& 0x1 ≠ 0 then
    (drawVLine n (x0 + a.x) (y0 - a.y) (2 * a.y + 1 + delta) color t).bind
      (drawVLine n (x0 + a.y) (y0 - a.x) (2 * a.x + 1 + delta) color)
  else some t).bind fun t =>
  if cornername &&& 0x2 ≠ 0 then
    (drawVLine n (x0 - a.x) (y0 - a.y) (2 * a.y + 1 + delta) color t).bind
      (drawVLine n (x0 - a.y) (y0 - a.x) (2 * a.x + 1 + delta) color)
  else some t

theorem fillCircleHelper_eq (n : Nat) (x0 y0 r : Int) (cornername : UInt8) (delta : Int) (color : UInt8) (t : Tela) :
    fillCircleHelper n x0 y0 r cornername delta color t =
      percorre n (ladosDe n (short x0) (short y0) cornername (short delta) color) (short r) t := rfl

/-- A line from `m` above the centre to `m` below it, and `delta` further. -/
def Alcanca (y0 delta m : Int) : Prop := m - 32768 ≤ y0 ∧ y0 + m + delta ≤ 32766

theorem Alcanca.mono {m m' : Int} (h : Alcanca y0 delta m) (hm : m' ≤ m) : Alcanca y0 delta m' := by
  unfold Alcanca at *
  omega

theorem alcanca_iff {m : Int} (hy : -32768 ≤ y0 ∧ y0 ≤ 32767) (hd : 0 ≤ delta ∧ delta < 256)
    (hm : 0 ≤ m ∧ m < 256) :
    short (y0 - m) + short (2 * m + 1 + delta) ≤ 32767 ↔ Alcanca y0 delta m := by
  have hh : short (2 * m + 1 + delta) = 2 * m + 1 + delta := short_eq (by omega) (by omega)
  rw [hh]
  unfold Alcanca
  by_cases hwrap : -32768 ≤ y0 - m
  · rw [short_eq hwrap (by omega)]
    omega
  · have hround : short (y0 - m) = y0 - m + 65536 := by
      rw [short, Int.bmod_def]
      omega
    rw [hround]
    omega

theorem ladosDe_returns {a : Arco} (hy : -32768 ≤ y0 ∧ y0 ≤ 32767) (hd : 0 ≤ delta ∧ delta < 256)
    (hr : r < 256) (ha : Dentro r a) (hfits : Alcanca y0 delta r) (hn : 65536 < n) :
    (ladosDe n x0 y0 cornername delta color a t).isSome := by
  obtain ⟨⟨hx, hx'⟩, hay, hay'⟩ := ha
  have hline (x m : Int) (hm : 0 ≤ m ∧ m ≤ r) (u : Tela) :
      (drawVLine n x (y0 - m) (2 * m + 1 + delta) color u).isSome :=
    drawVLine_returns ((alcanca_iff hy hd ⟨hm.1, by omega⟩).mpr (hfits.mono hm.2)) hn
  have hside (x x' : Int) (u : Tela) :
      ((drawVLine n x (y0 - a.y) (2 * a.y + 1 + delta) color u).bind
        (drawVLine n x' (y0 - a.x) (2 * a.x + 1 + delta) color)).isSome := by
    obtain ⟨u', hu⟩ := Option.isSome_iff_exists.mp (hline x a.y ⟨hay, hay'⟩ u)
    rw [hu]
    exact hline x' a.x ⟨hx, hx'⟩ u'
  have hright : (if cornername &&& 0x1 ≠ 0 then
      (drawVLine n (x0 + a.x) (y0 - a.y) (2 * a.y + 1 + delta) color t).bind
        (drawVLine n (x0 + a.y) (y0 - a.x) (2 * a.x + 1 + delta) color)
      else some t).isSome := by
    split
    · exact hside _ _ _
    · rfl
  obtain ⟨u, hu⟩ := Option.isSome_iff_exists.mp hright
  rw [ladosDe, hu, Option.bind_some]
  split
  · exact hside _ _ _
  · rfl

theorem ladosDe_hangs (hy : -32768 ≤ y0 ∧ y0 ≤ 32767) (hd : 0 ≤ delta ∧ delta < 256) (hr : 0 < r ∧ r < 256)
    (hcorner : cornername &&& 0x1 ≠ 0 ∨ cornername &&& 0x2 ≠ 0) (hfits : ¬ Alcanca y0 delta r) (n : Nat)
    (t : Tela) : ladosDe n x0 y0 cornername delta color (Arco.inicio r).avanca t = none := by
  have hx : (Arco.inicio r).avanca.x = 1 := avanca_x _
  have hy' : (Arco.inicio r).avanca.y = r ∨ r = 1 := by
    rw [avanca_y]
    split
    next hf =>
      have hpos : short (1 - r) ≥ 0 := hf
      rw [short_eq (by omega) (by omega)] at hpos
      exact .inr (by omega)
    next => exact .inl rfl
  have hline (x : Int) (u : Tela) : drawVLine n x (y0 - r) (2 * r + 1 + delta) color u = none := by
    apply drawVLine_hangs
    rw [← Int.not_le, alcanca_iff hy hd ⟨by omega, hr.2⟩]
    exact hfits
  have hside (x x' : Int) (u : Tela) :
      (drawVLine n x (y0 - (Arco.inicio r).avanca.y) (2 * (Arco.inicio r).avanca.y + 1 + delta) color u).bind
        (drawVLine n x' (y0 - (Arco.inicio r).avanca.x) (2 * (Arco.inicio r).avanca.x + 1 + delta) color) = none := by
    rw [Option.bind_eq_none_iff]
    intro v hv
    rcases hy' with hy' | hone
    · rw [hy', hline] at hv
      cases hv
    · have hlast := hline x' v
      rw [hone] at hlast
      rwa [hx]
  rw [ladosDe]
  rcases hcorner with hcorner | hcorner
  · rw [if_pos hcorner, hside]
    rfl
  · rw [Option.bind_eq_none_iff]
    intro u _
    rw [if_pos hcorner]
    exact hside _ _ u

end Circles

section Commands

variable {n : Nat} {alem : Nat → UInt8} {t : Tela}

def Termina : Chamada → Prop
  | .drawVLine _ y h _ => short y.toNat + short h.toNat ≤ 32767
  | .drawLine x0 y0 x1 y1 _ => fimMaior x0.toNat y0.toNat x1.toNat y1.toNat < 32767
  | .drawRoundRect _ y _ h r _ =>
      short (short y.toNat + short r.toNat) + short (short h.toNat - 2 * short r.toNat) ≤ 32767
  | .fillCircleHelper _ y0 r cornername delta _ =>
      (cornername.toUInt8 &&& 0x1 = 0 ∧ cornername.toUInt8 &&& 0x2 = 0) ∨ r = 0 ∨
        Alcanca (short y0.toNat) (short delta.toNat) (short r.toNat)
  | _ => True

def DeUmByte (r : Registers) : Prop := r.raio.toNat < 256 ∧ r.delta.toNat < 256

def registros (pacotes : List UInt16) : Registers :=
  pacotes.foldl (fun r pacote => (gerenciarBarramentoM68k pacote r).2.1) registrosZero

theorem of_ite {α : Type} {P : α → Prop} {p : Prop} [Decidable p] {a b : α} (ha : P a) (hb : P b) :
    P (if p then a else b) := by
  split
  · exact ha
  · exact hb

theorem deUmByte_trataRegistro (reg dado : UInt8) {r : Registers} (h : DeUmByte r) :
    DeUmByte (trataRegistro reg dado r).1 := by
  have hbyte : dado.toUInt16.toNat < 256 := by
    rw [UInt8.toNat_toUInt16]
    exact dado.toNat_lt
  let P (p : Registers × Option Chamada) : Prop := DeUmByte p.1
  have hrun : P (runCmd dado r) := of_ite h (of_ite h (of_ite h h))
  refine of_ite (P := P) h (of_ite h (of_ite hrun ?_))
  change DeUmByte (if _ then _ else _)
  iterate 13 refine of_ite h ?_
  exact of_ite ⟨hbyte, h.2⟩ (of_ite h (of_ite ⟨h.1, hbyte⟩ h))

theorem deUmByte_registros (pacotes : List UInt16) : DeUmByte (registros pacotes) := by
  have hrun (r : Registers) (h : DeUmByte r) :
      DeUmByte (pacotes.foldl (fun r pacote => (gerenciarBarramentoM68k pacote r).2.1) r) := by
    induction pacotes generalizing r with
    | nil => exact h
    | cons pacote pacotes ih => exact ih _ (deUmByte_trataRegistro _ _ h)
  exact hrun registrosZero ⟨by decide, by decide⟩

def DosRegistros (r : Registers) : Chamada → Prop
  | .drawCircle _ _ raio _ | .drawCircleHelper _ _ raio _ _ | .drawRoundRect _ _ _ _ raio _ => raio = r.raio
  | .fillCircleHelper _ _ raio _ delta _ => raio = r.raio ∧ delta = r.delta
  | _ => True

theorem dosRegistros_gerencia {pacote : UInt16} {r : Registers} {c : Chamada}
    (hc : (gerenciarBarramentoM68k pacote r).2.2 = some c) : DosRegistros r c := by
  let P (o : Option Chamada) : Prop := ∀ c, o = some c → DosRegistros r c
  let Q (p : Registers × Option Chamada) : Prop := P p.2
  have hnone : P none := nofun
  have hcall (c : Chamada) (h : DosRegistros r c) : P (some c) := by
    rintro c' hc'
    obtain rfl := Option.some.inj hc'
    exact h
  have hrun (dado : UInt8) : Q (runCmd dado r) := by
    refine of_ite (P := Q) (hcall _ trivial) (of_ite (hcall _ trivial) (of_ite (hcall _ trivial) ?_))
    change P (if _ then _ else _)
    refine of_ite (hcall _ trivial) (of_ite (hcall _ trivial) (of_ite (hcall _ trivial) ?_))
    refine of_ite (hcall _ rfl) (of_ite (hcall _ rfl) (of_ite (hcall _ trivial) ?_))
    refine of_ite (hcall _ ⟨rfl, rfl⟩) (of_ite (hcall _ rfl) (of_ite (hcall _ trivial) ?_))
    exact of_ite (hcall _ trivial) (of_ite (hcall _ trivial) hnone)
  have hall (reg dado : UInt8) : Q (trataRegistro reg dado r) :=
    of_ite (P := Q) (hcall _ trivial) (of_ite (hcall _ trivial) (of_ite (hrun dado) hnone))
  exact hall _ _ c hc

variable {color : UInt8}

theorem drawVLine_terminates (x y h : Int) :
    (∃ n, (drawVLine n x y h color t).isSome) ↔ short y + short h ≤ 32767 := by
  constructor
  · rintro ⟨n, hn⟩
    by_contra hend
    rw [drawVLine_hangs (Int.not_le.mp hend) n] at hn
    cases hn
  · exact fun hend => ⟨65537, drawVLine_returns hend (by decide)⟩

theorem drawLine_terminates (x0 y0 x1 y1 : Int) :
    (∃ n, (drawLine n x0 y0 x1 y1 color t).isSome) ↔ fimMaior x0 y0 x1 y1 < 32767 := by
  obtain ⟨steep, a, b, e, ha, hle, hdraw⟩ := exists_traca x0 y0 x1 y1
  have hmax : fimMaior x0 y0 x1 y1 ≤ 32767 := by
    rw [fimMaior]
    split
    · exact max_le (short_bounds y0).2 (short_bounds y1).2
    · exact max_le (short_bounds x0).2 (short_bounds x1).2
  simp only [hdraw]
  generalize fimMaior x0 y0 x1 y1 = fim at hle hmax ⊢
  constructor
  · rintro ⟨n, hn⟩
    by_contra hend
    obtain rfl : fim = 32767 := by omega
    rw [traca_hangs hle n] at hn
    cases hn
  · exact fun hend => ⟨65537, traca_returns ha hend hle (by decide)⟩

theorem drawRoundRect_terminates {x y w h r : Int} (hr : 0 ≤ short r ∧ short r < 256) :
    (∃ n, (drawRoundRect n x y w h r color t).isSome) ↔
      short (short y + short r) + short (short h - 2 * short r) ≤ 32767 := by
  have hrs : short (short r) = short r := short_eq (by omega) (by omega)
  constructor
  · rintro ⟨n, hn⟩
    by_contra hend
    rw [drawRoundRect, drawVLine_hangs (Int.not_le.mp hend) n] at hn
    cases hn
  · intro hend
    refine ⟨65537, ?_⟩
    have hside (x : Int) (u : Tela) :
        ∃ u', drawVLine 65537 x (short y + short r) (short h - 2 * short r) color u = some u' :=
      Option.isSome_iff_exists.mp (drawVLine_returns hend (by decide))
    have hcorner (x y : Int) (cornername : UInt8) (u : Tela) :
        ∃ u', drawCircleHelper 65537 x y (short r) cornername color u = some u' :=
      Option.isSome_iff_exists.mp (drawCircleHelper_returns (by rwa [hrs]) (by decide))
    obtain ⟨t₁, h₁⟩ := hside (short x) (drawHLine (short x + short r) (short y + short h - 1)
      (short w - 2 * short r) color (drawHLine (short x + short r) (short y) (short w - 2 * short r) color t))
    obtain ⟨t₂, h₂⟩ := hside (short x + short w - 1) t₁
    obtain ⟨t₃, h₃⟩ := hcorner (short x + short r) (short y + short r) 1 t₂
    obtain ⟨t₄, h₄⟩ := hcorner (short x + short w - short r - 1) (short y + short r) 2 t₃
    obtain ⟨t₅, h₅⟩ := hcorner (short x + short w - short r - 1) (short y + short h - short r - 1) 4 t₄
    obtain ⟨t₆, h₆⟩ := hcorner (short x + short r) (short y + short h - short r - 1) 8 t₅
    rw [drawRoundRect, h₁]
    simp only [Option.bind_eq_bind, Option.bind_some, h₂, h₃, h₄, h₅, h₆]
    rfl

theorem fillCircleHelper_terminates {x0 y0 r delta : Int} {cornername : UInt8} (hr : 0 ≤ short r ∧ short r < 256)
    (hd : 0 ≤ short delta ∧ short delta < 256) :
    (∃ n, (fillCircleHelper n x0 y0 r cornername delta color t).isSome) ↔
      (cornername &&& 0x1 = 0 ∧ cornername &&& 0x2 = 0) ∨ short r = 0 ∨
        Alcanca (short y0) (short delta) (short r) := by
  simp only [fillCircleHelper_eq]
  constructor
  · rintro ⟨n, hn⟩
    by_contra hno
    rw [not_or, not_or] at hno
    obtain ⟨hcorner, hzero, hfits⟩ := hno
    rw [percorre_hangs (by omega) (fun u => ladosDe_hangs (short_bounds y0) hd ⟨by omega, hr.2⟩ (by tauto) hfits n u) n]
      at hn
    cases hn
  · rintro (⟨hright, hleft⟩ | hzero | hfits)
    · refine ⟨65537, percorre_returns hr (fun a u _ => ?_) (by decide)⟩
      rw [ladosDe, if_neg (not_not.mpr hright), Option.bind_some, if_neg (not_not.mpr hleft)]
      rfl
    · rw [hzero]
      exact ⟨1, rfl⟩
    · exact ⟨65537, percorre_returns hr
        (fun a u ha => ladosDe_returns (short_bounds y0) hd hr.2 ha hfits (by decide)) (by decide)⟩

/-- For all registers that the 68k can write, a command comes to its end exactly when its short variables
reach the bounds of their loops. -/
theorem commands_terminate_iff (alem : Nat → UInt8) (pacotes : List UInt16) (pacote : UInt16) (c : Chamada) (t : Tela)
    (hc : (gerenciarBarramentoM68k pacote (registros pacotes)).2.2 = some c) :
    (∃ n, (executa alem n c t).isSome) ↔ Termina c := by
  obtain ⟨hraio, hdelta⟩ := deUmByte_registros pacotes
  have hbyte {v : UInt16} (hv : v.toNat < 256) : short v.toNat = v.toNat := short_eq (by omega) (by omega)
  have hsmall {v : UInt16} (hv : v.toNat < 256) : 0 ≤ short v.toNat ∧ short v.toNat < 256 := by
    rw [hbyte hv]
    omega
  have hregs := dosRegistros_gerencia hc
  generalize registros pacotes = regs at hraio hdelta hregs
  cases c with
  | drawVLine x y h color => exact drawVLine_terminates _ _ _
  | drawLine x0 y0 x1 y1 color =>
      simp only [executa, Termina]
      exact drawLine_terminates _ _ _ _
  | drawCircle x0 y0 r color =>
      obtain rfl : r = regs.raio := hregs
      exact iff_of_true ⟨257, drawCircle_returns (hsmall hraio) (by decide)⟩ trivial
  | drawCircleHelper x0 y0 r cornername color =>
      obtain rfl : r = regs.raio := hregs
      exact iff_of_true ⟨257, drawCircleHelper_returns (hsmall hraio) (by decide)⟩ trivial
  | drawRoundRect x y w h r color =>
      obtain rfl : r = regs.raio := hregs
      exact drawRoundRect_terminates (hsmall hraio)
  | fillCircleHelper x0 y0 r cornername delta color =>
      obtain ⟨rfl, rfl⟩ : r = regs.raio ∧ delta = regs.delta := hregs
      have hzero : regs.raio = 0 ↔ short regs.raio.toNat = 0 := by
        rw [hbyte hraio, ← UInt16.toNat_inj, Int.natCast_eq_zero]
        rfl
      rw [Termina, hzero]
      exact fillCircleHelper_terminates (hsmall hraio) (hsmall hdelta)
  | _ =>
      refine iff_of_true ⟨0, ?_⟩ trivial
      rw [executa]
      exact Option.isSome_some

/-- A vertical line of one pixel at the end of the range of a `short`. -/
def escreveVertical (y : UInt16) : List UInt16 :=
  [escrita dRegYHigh (y >>> 8).toUInt8, escrita dRegYLow y.toUInt8, escrita dRegHeightHigh 0,
    escrita dRegHeightLow 1]

theorem command_terminates_at_479 :
    ∃ n, (executa (fun _ => 0) n (.drawVLine 0 479 1 0) (telaInicial fun _ => 0)).isSome :=
  (commands_terminate_iff (fun _ => 0) (escreveVertical 479) (escrita dRunCmd cmdDrawVLine) (.drawVLine 0 479 1 0)
    (telaInicial fun _ => 0) (by decide)).mpr
    (show short (479 : UInt16).toNat + short (1 : UInt16).toNat ≤ 32767 by decide)

theorem line_at_end_hangs : ¬ ∀ (alem : Nat → UInt8) (pacotes : List UInt16) (pacote : UInt16) (c : Chamada) (t : Tela),
    (gerenciarBarramentoM68k pacote (registros pacotes)).2.2 = some c → ∃ n, (executa alem n c t).isSome := by
  intro h
  obtain ⟨n, hn⟩ := h (fun _ => 0) (escreveVertical 0x7FFF) (escrita dRunCmd cmdDrawVLine) (.drawVLine 0 0x7FFF 1 0)
    (telaInicial fun _ => 0) (by decide)
  have hnone : drawVLine n 0 0x7FFF 1 0 (telaInicial fun _ => 0) = none := drawVLine_hangs (by decide) n
  have hsome : (drawVLine n 0 0x7FFF 1 0 (telaInicial fun _ => 0)).isSome := hn
  rw [hnone] at hsome
  cases hsome

end Commands

end Orion68.VgaTermination
