import Orion68.Lib.Lines
import Orion68.Vga.Painting

namespace Orion68.VgaLine

open Loops Lines Painting Vga VgaAccesses VgaCursor VgaPainting

section Octants

/-- A round of the loop of `drawLine`. -/
def rodada (steep : Bool) (dx dy ystep : Int) (color : UInt8) (s : Bresenham) : Bresenham :=
  let t := if steep then drawPixel s.y0 s.x0 color s.tela else drawPixel s.x0 s.y0 color s.tela
  let err := short (s.err - dy)
  if err < 0 then ⟨short (s.x0 + 1), short (s.y0 + ystep), short (err + dx), t⟩
  else ⟨short (s.x0 + 1), s.y0, err, t⟩

/-- `drawLine` from where its ends are in order. -/
def traca (n : Nat) (steep : Bool) (x0 y0 x1 y1 : Int) (color : UInt8) (t : Tela) : Option Tela :=
  let dx := short (x1 - x0)
  let dy := short (y1 - y0).natAbs
  let ystep := if y0 < y1 then 1 else -1
  (whileLoop (fun s : Bresenham => decide (s.x0 ≤ x1)) (fun s => some (rodada steep dx dy ystep color s)) n
    ⟨x0, y0, dx.tdiv 2, t⟩).map (·.tela)

theorem drawLine_eq (n : Nat) (x0 y0 x1 y1 : Int) (color : UInt8) (t : Tela) :
    drawLine n x0 y0 x1 y1 color t =
      if (short y1 - short y0).natAbs > (short x1 - short x0).natAbs then
        if short y0 > short y1 then traca n true (short y1) (short x1) (short y0) (short x0) color t
        else traca n true (short y0) (short x0) (short y1) (short x1) color t
      else if short x0 > short x1 then traca n false (short x1) (short y1) (short x0) (short y0) color t
      else traca n false (short x0) (short y0) (short x1) (short y1) color t := by
  rw [drawLine]
  by_cases hsteep : (short y1 - short y0).natAbs > (short x1 - short x0).natAbs
  · rw [if_pos hsteep]
    by_cases horder : short y0 > short y1
    · simp only [decide_eq_true hsteep, if_true, if_pos horder]
      rfl
    · simp only [decide_eq_true hsteep, if_true, if_neg horder]
      rfl
  · rw [if_neg hsteep]
    by_cases horder : short x0 > short x1
    · simp only [decide_eq_false hsteep, Bool.false_eq_true, if_false, if_pos horder]
      rfl
    · simp only [decide_eq_false hsteep, Bool.false_eq_true, if_false, if_neg horder]
      rfl

end Octants

section Run

/-- A line on the screen, with its ends in order: the coordinate along which it goes from `a` on by `D`,
the other one from `b` on by `d`. -/
structure Traco where
  steep : Bool
  a : Int
  b : Int
  ystep : Int
  D : Nat
  d : Nat
  menor : d ≤ D
  passo : ystep = if 0 < ystep * d then 1 else -1
  principal : 0 ≤ a ∧ a + D < largura
  secundaria : 0 ≤ b ∧ b < largura ∧ 0 ≤ b + ystep * d ∧ b + ystep * d < largura

namespace Traco

variable (r : Traco) (color : UInt8) (t : Tela)

/-- The `k`th pixel. -/
def ponto (k : Nat) : Int × Int :=
  if r.steep then (r.b + r.ystep * offset r.D r.d k, r.a + k) else (r.a + k, r.b + r.ystep * offset r.D r.d k)

def desenha (k : Nat) : Tela :=
  (List.range k).foldl (fun t (j : Nat) => drawPixel (r.ponto j).1 (r.ponto j).2 color t) t

/-- The variables after `k` rounds. -/
def estado (k : Nat) : Bresenham :=
  ⟨r.a + k, r.b + r.ystep * offset r.D r.d k, ((r.D / 2 + offset r.D r.d k * r.D : Nat) : Int) - (k * r.d : Nat),
    r.desenha color t k⟩

theorem desenha_succ (k : Nat) :
    r.desenha color t (k + 1) =
      if r.steep then drawPixel (r.b + r.ystep * offset r.D r.d k) (r.a + k) color (r.desenha color t k)
      else drawPixel (r.a + k) (r.b + r.ystep * offset r.D r.d k) color (r.desenha color t k) := by
  rw [desenha, List.range_succ, List.foldl_append, List.foldl_cons, List.foldl_nil, ponto]
  split <;> rfl

theorem ystep_eq : r.ystep = 1 ∨ r.ystep = -1 := by
  rw [r.passo]
  split
  · exact .inl rfl
  · exact .inr rfl

theorem rodada_estado {k : Nat} (hk : k ≤ r.D) :
    rodada r.steep r.D r.d r.ystep color (r.estado color t k) = r.estado color t (k + 1) := by
  obtain ⟨ha, hD⟩ := r.principal
  obtain ⟨hb, hb', he, he'⟩ := r.secundaria
  have hmenor := r.menor
  have hle := offset_le r.menor hk
  obtain ⟨hlow, hhigh⟩ := offset_error r.menor k
  have hsucc := offset_succ r.menor k
  unfold largura at *
  have hstep : -1 ≤ r.b + r.ystep * offset r.D r.d k + r.ystep ∧
      r.b + r.ystep * offset r.D r.d k + r.ystep ≤ 640 := by
    rcases r.ystep_eq with h | h <;> rw [h] at he he' ⊢ <;> omega
  have hx : short (r.a + k + 1) = r.a + (k + 1 : Nat) := by
    rw [short_eq (by omega) (by omega)]
    omega
  rw [rodada, estado, estado, desenha_succ, hsucc, Nat.succ_mul]
  dsimp only
  have herr : short (((r.D / 2 + offset r.D r.d k * r.D : Nat) : Int) - (k * r.d : Nat) - r.d) =
      ((r.D / 2 + offset r.D r.d k * r.D : Nat) : Int) - (k * r.d : Nat) - r.d := short_eq (by omega) (by omega)
  rw [hx, herr]
  by_cases hside : r.D / 2 + offset r.D r.d k * r.D < k * r.d + r.d
  · have hy : short (r.b + r.ystep * offset r.D r.d k + r.ystep) =
        r.b + r.ystep * (offset r.D r.d k + 1 : Nat) := by
      rw [short_eq (by omega) (by omega)]
      push_cast
      ring
    rw [if_pos (by omega), if_pos hside, hy, short_eq (by omega) (by omega), Nat.succ_mul]
    congr 1
    omega
  · rw [if_neg (by omega), if_neg hside]
    congr 1
    omega

theorem traca_eq {n : Nat} (hn : r.D + 1 < n) :
    traca n r.steep r.a r.b (r.a + r.D) (r.b + r.ystep * r.d) color t = some (r.desenha color t (r.D + 1)) := by
  obtain ⟨ha, hD⟩ := r.principal
  have hmenor := r.menor
  unfold largura at hD
  have hdx : short (r.a + r.D - r.a) = r.D := by
    rw [add_sub_cancel_left, short_eq (by omega) (by omega)]
  have hdy : short (r.b + r.ystep * r.d - r.b).natAbs = r.d := by
    rw [add_sub_cancel_left, short_eq] <;> rcases r.ystep_eq with h | h <;> rw [h] <;> omega
  have hystep : (if r.b < r.b + r.ystep * r.d then 1 else -1) = r.ystep := by
    simp only [lt_add_iff_pos_right]
    exact r.passo.symm
  have hstart : (⟨r.a, r.b, (r.D : Int).tdiv 2, t⟩ : Bresenham) = r.estado color t 0 := by
    rw [estado, offset_zero, Int.tdiv_eq_ediv_of_nonneg (Int.natCast_nonneg _)]
    simp [desenha]
  rw [traca, hdx, hdy, hystep, hstart]
  obtain ⟨t', ht', rfl⟩ : ∃ t', (whileLoop (fun s : Bresenham => decide (s.x0 ≤ r.a + r.D))
      (fun s => some (rodada r.steep r.D r.d r.ystep color s)) n (r.estado color t 0)).map (·.tela) = some t' ∧
        t' = r.desenha color t (r.D + 1) := by
    refine whileLoop_map_total (I := fun s => ∃ k ≤ r.D + 1, s = r.estado color t k)
      (fun s => (r.a + r.D + 1 - s.x0).toNat) ?_ ?_ ⟨0, Nat.zero_le _, rfl⟩ ?_
    · rintro s ⟨k, hk, rfl⟩ hc
      have hkD : r.a + k ≤ r.a + r.D := of_decide_eq_true hc
      refine ⟨_, rfl, ⟨k + 1, by omega, r.rodada_estado color t (by omega)⟩, ?_⟩
      rw [r.rodada_estado color t (by omega)]
      dsimp only [estado]
      omega
    · rintro s ⟨k, hk, rfl⟩ hc
      have hkD : ¬ r.a + k ≤ r.a + r.D := of_decide_eq_false hc
      obtain rfl : k = r.D + 1 := by omega
      rfl
    · dsimp only [estado]
      omega
  exact ht'

end Traco

end Run

section Lines

def NaTela (p : Int × Int) : Prop := 0 ≤ p.1 ∧ p.1 < largura ∧ 0 ≤ p.2 ∧ p.2 < altura

instance (p : Int × Int) : Decidable (NaTela p) := inferInstanceAs (Decidable (_ ∧ _))

def Ingreme (p q : Int × Int) : Prop := (q.2 - p.2).natAbs > (q.1 - p.1).natAbs

instance (p q : Int × Int) : Decidable (Ingreme p q) := inferInstanceAs (Decidable (_ > _))

/-- How far it goes along its major and its minor coordinate. -/
def maior (p q : Int × Int) : Nat := max (q.1 - p.1).natAbs (q.2 - p.2).natAbs

def menor (p q : Int × Int) : Nat := min (q.1 - p.1).natAbs (q.2 - p.2).natAbs

def coordMaior (p q r : Int × Int) : Int := if Ingreme p q then r.2 else r.1

def coordMenor (p q r : Int × Int) : Int := if Ingreme p q then r.1 else r.2

/-- The points of a line from `p` to `q`, from one of its ends on. -/
structure Reta (p q : Int × Int) (ponto : Nat → Int × Int) : Prop where
  extremos : ponto 0 = p ∧ ponto (maior p q) = q ∨ ponto 0 = q ∧ ponto (maior p q) = p
  naTela : ∀ k ≤ maior p q, NaTela (ponto k)
  avanca : ∀ k ≤ maior p q, coordMaior p q (ponto k) = coordMaior p q (ponto 0) + k
  perto : ∀ k ≤ maior p q,
    2 * |(|coordMenor p q (ponto k) - coordMenor p q (ponto 0)|) * maior p q - k * menor p q| ≤ maior p q
  vizinhos : ∀ k < maior p q, |(ponto (k + 1)).1 - (ponto k).1| ≤ 1 ∧ |(ponto (k + 1)).2 - (ponto k).2| ≤ 1

def lugares (ponto : Nat → Int × Int) (D : Nat) : Finset Int :=
  (Finset.range (D + 1)).image fun k => largura * (ponto k).2 + (ponto k).1

variable {p q : Int × Int} {ponto : Nat → Int × Int}

theorem ingreme_comm (p q : Int × Int) : Ingreme p q ↔ Ingreme q p := by
  unfold Ingreme
  omega

theorem maior_comm (p q : Int × Int) : maior p q = maior q p := by
  unfold maior
  omega

theorem menor_comm (p q : Int × Int) : menor p q = menor q p := by
  unfold menor
  omega

theorem Reta.symm (h : Reta p q ponto) : Reta q p ponto := by
  have hmaior (r : Int × Int) : coordMaior q p r = coordMaior p q r := by
    rw [coordMaior, coordMaior, if_congr (ingreme_comm q p) rfl rfl]
  have hmenor (r : Int × Int) : coordMenor q p r = coordMenor p q r := by
    rw [coordMenor, coordMenor, if_congr (ingreme_comm q p) rfl rfl]
  constructor
  · rw [maior_comm q p]
    exact h.extremos.symm
  · rw [maior_comm q p]
    exact h.naTela
  · rw [maior_comm q p]
    simpa only [hmaior] using h.avanca
  · rw [maior_comm q p, menor_comm q p]
    simpa only [hmenor] using h.perto
  · rw [maior_comm q p]
    exact h.vizinhos

theorem Reta.card_lugares (h : Reta p q ponto) : (lugares ponto (maior p q)).card = maior p q + 1 := by
  rw [lugares, Finset.card_image_of_injOn, Finset.card_range]
  intro j hj k hk hplace
  rw [Finset.coe_range, Set.mem_Iio] at hj hk
  obtain ⟨hx, hx', hy, hy'⟩ := h.naTela j (by omega)
  obtain ⟨hX, hX', hY, hY'⟩ := h.naTela k (by omega)
  have hmajor := h.avanca j (by omega)
  have hmajor' := h.avanca k (by omega)
  unfold largura altura at *
  dsimp only at hplace
  have hrow : (ponto j).2 = (ponto k).2 := by omega
  have hcol : (ponto j).1 = (ponto k).1 := by omega
  rw [Prod.ext hcol hrow] at hmajor
  omega

theorem Reta.painted (h : Reta p q ponto) {color : UInt8} (hc : color.toNat < 16) (t : Tela) :
    Painted (lugares ponto (maior p q)) color (nibbles t.fb)
      (nibbles ((List.range (maior p q + 1)).foldl
        (fun t (k : Nat) => drawPixel (ponto k).1 (ponto k).2 color t) t).fb) := by
  refine (painted_pixels hc (List.range (maior p q + 1)) ponto t).congr fun i => ?_
  rw [lugares, Finset.mem_coe, Finset.mem_image]
  apply exists_congr
  intro k
  rw [List.mem_range, Finset.mem_range]
  apply and_congr_right
  intro hk
  obtain ⟨hx, hx', hy, hy'⟩ := h.naTela k (by omega)
  unfold pixel largura altura at *
  rw [Set.mem_ofPred_eq, short_eq (by omega) (by omega), short_eq (by omega) (by omega)]
  omega

namespace Traco

variable (r : Traco)

theorem ponto_zero : r.ponto 0 = if r.steep then (r.b, r.a) else (r.a, r.b) := by
  rw [ponto, offset_zero]
  simp

theorem ponto_last : r.ponto r.D =
    if r.steep then (r.b + r.ystep * r.d, r.a + r.D) else (r.a + r.D, r.b + r.ystep * r.d) := by
  rw [ponto, offset_last r.menor]

variable {r} {k : Nat}

theorem abs_desvio : |r.ystep * offset r.D r.d k| = offset r.D r.d k := by
  rcases r.ystep_eq with h | h <;> rw [h] <;> simp

theorem desvio_succ :
    |r.b + r.ystep * offset r.D r.d (k + 1) - (r.b + r.ystep * offset r.D r.d k)| ≤ 1 := by
  have hone : (offset r.D r.d (k + 1) : Int) = offset r.D r.d k + 1 ∨
      (offset r.D r.d (k + 1) : Int) = offset r.D r.d k := by
    rw [offset_succ r.menor]
    split
    · exact .inl (Nat.cast_succ _)
    · exact .inr rfl
  rw [abs_le]
  rcases r.ystep_eq with h | h <;> rw [h] <;> omega

theorem desvio_between {m : Int} (hk : k ≤ r.D) (h0 : 0 ≤ r.b ∧ r.b < m)
    (hd : 0 ≤ r.b + r.ystep * r.d ∧ r.b + r.ystep * r.d < m) :
    0 ≤ r.b + r.ystep * offset r.D r.d k ∧ r.b + r.ystep * offset r.D r.d k < m := by
  have hle := offset_le r.menor hk
  rcases r.ystep_eq with h | h <;> rw [h] at hd ⊢ <;> omega

theorem extensao : (r.ystep * r.d).natAbs = r.d := by
  rcases r.ystep_eq with h | h <;> rw [h] <;> omega

theorem avanca_succ : |r.a + (k + 1 : Nat) - (r.a + k)| ≤ 1 := by
  rw [abs_le]
  omega

theorem reta_deitada (hs : r.steep = false) (hp : NaTela (r.ponto 0)) (hq : NaTela (r.ponto r.D)) :
    Reta (r.ponto 0) (r.ponto r.D) r.ponto := by
  have hle := r.menor
  have hext := r.extensao
  have hponto (k : Nat) : r.ponto k = (r.a + k, r.b + r.ystep * offset r.D r.d k) := by
    rw [ponto, hs]
    rfl
  have hfirst : r.ponto 0 = (r.a, r.b) := by rw [r.ponto_zero, hs, if_neg Bool.false_ne_true]
  have hlast : r.ponto r.D = (r.a + r.D, r.b + r.ystep * r.d) := by
    rw [r.ponto_last, hs, if_neg Bool.false_ne_true]
  rw [hfirst] at hp ⊢
  rw [hlast] at hq ⊢
  have hing : ¬ Ingreme (r.a, r.b) (r.a + r.D, r.b + r.ystep * r.d) := by
    unfold Ingreme
    dsimp only
    omega
  have hD : maior (r.a, r.b) (r.a + r.D, r.b + r.ystep * r.d) = r.D := by
    unfold maior
    dsimp only
    omega
  have hd : VgaLine.menor (r.a, r.b) (r.a + r.D, r.b + r.ystep * r.d) = r.d := by
    unfold VgaLine.menor
    dsimp only
    omega
  constructor
  · rw [hD]
    exact .inl ⟨hfirst, hlast⟩
  · intro k hk
    rw [hD] at hk
    obtain ⟨hx, -, hy⟩ := hp
    obtain ⟨-, hx', hy'⟩ := hq
    dsimp only at hx hx'
    rw [hponto]
    exact ⟨by dsimp only; omega, by dsimp only; omega, desvio_between hk hy hy'⟩
  · intro k hk
    rw [coordMaior, coordMaior, if_neg hing, if_neg hing, hponto, hfirst]
  · intro k hk
    rw [coordMenor, coordMenor, if_neg hing, if_neg hing, hD, hd, hponto, hfirst]
    dsimp only
    rw [add_sub_cancel_left, abs_desvio]
    exact offset_near r.menor k
  · intro k hk
    rw [hponto, hponto]
    exact ⟨avanca_succ, desvio_succ⟩

theorem reta_ingreme (hs : r.steep = true) (hlt : r.d < r.D) (hp : NaTela (r.ponto 0))
    (hq : NaTela (r.ponto r.D)) : Reta (r.ponto 0) (r.ponto r.D) r.ponto := by
  have hext := r.extensao
  have hponto (k : Nat) : r.ponto k = (r.b + r.ystep * offset r.D r.d k, r.a + k) := by
    rw [ponto, hs]
    rfl
  have hfirst : r.ponto 0 = (r.b, r.a) := by rw [r.ponto_zero, if_pos hs]
  have hlast : r.ponto r.D = (r.b + r.ystep * r.d, r.a + r.D) := by rw [r.ponto_last, if_pos hs]
  rw [hfirst] at hp ⊢
  rw [hlast] at hq ⊢
  have hing : Ingreme (r.b, r.a) (r.b + r.ystep * r.d, r.a + r.D) := by
    unfold Ingreme
    dsimp only
    omega
  have hD : maior (r.b, r.a) (r.b + r.ystep * r.d, r.a + r.D) = r.D := by
    unfold maior
    dsimp only
    omega
  have hd : VgaLine.menor (r.b, r.a) (r.b + r.ystep * r.d, r.a + r.D) = r.d := by
    unfold VgaLine.menor
    dsimp only
    omega
  constructor
  · rw [hD]
    exact .inl ⟨hfirst, hlast⟩
  · intro k hk
    rw [hD] at hk
    obtain ⟨hx, hx', hy, -⟩ := hp
    obtain ⟨hX, hX', -, hy'⟩ := hq
    obtain ⟨hlow, hhigh⟩ := desvio_between hk ⟨hx, hx'⟩ ⟨hX, hX'⟩
    dsimp only at hy hy'
    rw [hponto]
    exact ⟨hlow, hhigh, by dsimp only; omega, by dsimp only; omega⟩
  · intro k hk
    rw [coordMaior, coordMaior, if_pos hing, if_pos hing, hponto, hfirst]
  · intro k hk
    rw [coordMenor, coordMenor, if_pos hing, if_pos hing, hD, hd, hponto, hfirst]
    dsimp only
    rw [add_sub_cancel_left, abs_desvio]
    exact offset_near r.menor k
  · intro k hk
    rw [hponto, hponto]
    exact ⟨desvio_succ, avanca_succ⟩

end Traco

theorem exists_traco (steep : Bool) {a b c e : Int} (ha : 0 ≤ a) (hac : a ≤ c) (hc : c < largura)
    (hb : 0 ≤ b ∧ b < largura) (he : 0 ≤ e ∧ e < largura) (hle : (e - b).natAbs ≤ (c - a).natAbs) :
    ∃ r : Traco, r.steep = steep ∧ r.a = a ∧ r.b = b ∧ r.D = (c - a).natAbs ∧ r.d = (e - b).natAbs ∧
      r.a + r.D = c ∧ r.b + r.ystep * r.d = e := by
  have hD : a + (c - a).natAbs = c := by omega
  have hd : b + (if b < e then 1 else -1) * ((e - b).natAbs : Int) = e := by
    split <;> omega
  refine ⟨⟨steep, a, b, if b < e then 1 else -1, (c - a).natAbs, (e - b).natAbs, hle, ?_, ?_, ?_⟩,
    rfl, rfl, rfl, rfl, rfl, hD, hd⟩
  · split
    next h => rw [if_pos (by omega)]
    next h => rw [if_neg (by omega)]
  · rw [hD]
    exact ⟨ha, hc⟩
  · rw [hd]
    exact ⟨hb.1, hb.2, he⟩

theorem drawLine_traco {p q : Int × Int} (hp : NaTela p) (hq : NaTela q) :
    ∃ r : Traco, (r.steep = true → r.d < r.D) ∧ r.D = maior p q ∧
      (r.ponto 0 = p ∧ r.ponto r.D = q ∨ r.ponto 0 = q ∧ r.ponto r.D = p) ∧
      ∀ n color t, drawLine n p.1 p.2 q.1 q.2 color t =
        traca n r.steep r.a r.b (r.a + r.D) (r.b + r.ystep * r.d) color t := by
  obtain ⟨px, py⟩ := p
  obtain ⟨qx, qy⟩ := q
  obtain ⟨hpx, hpx', hpy, hpy'⟩ := hp
  obtain ⟨hqx, hqx', hqy, hqy'⟩ := hq
  unfold largura altura at *
  dsimp only [maior] at *
  have hpx_short : short px = px := short_eq (by omega) (by omega)
  have hpy_short : short py = py := short_eq (by omega) (by omega)
  have hqx_short : short qx = qx := short_eq (by omega) (by omega)
  have hqy_short : short qy = qy := short_eq (by omega) (by omega)
  simp only [drawLine_eq, hpx_short, hpy_short, hqx_short, hqy_short]
  by_cases hsteep : (qy - py).natAbs > (qx - px).natAbs
  · simp only [if_pos hsteep]
    by_cases horder : py > qy
    · obtain ⟨r, hs, ha, hb, hD, hd, hc, he⟩ := exists_traco true (a := qy) (b := qx) (c := py) (e := px)
        hqy (by omega) (by unfold largura; omega) ⟨hqx, hqx'⟩ ⟨hpx, hpx'⟩ (by omega)
      refine ⟨r, fun _ => by omega, by omega, .inr ⟨?_, ?_⟩, fun n color t => ?_⟩
      · rw [r.ponto_zero, if_pos hs, ha, hb]
      · rw [r.ponto_last, if_pos hs, hc, he]
      · rw [if_pos horder, hs, hc, he, ha, hb]
    · obtain ⟨r, hs, ha, hb, hD, hd, hc, he⟩ := exists_traco true (a := py) (b := px) (c := qy) (e := qx)
        hpy (by omega) (by unfold largura; omega) ⟨hpx, hpx'⟩ ⟨hqx, hqx'⟩ (by omega)
      refine ⟨r, fun _ => by omega, by omega, .inl ⟨?_, ?_⟩, fun n color t => ?_⟩
      · rw [r.ponto_zero, if_pos hs, ha, hb]
      · rw [r.ponto_last, if_pos hs, hc, he]
      · rw [if_neg horder, hs, hc, he, ha, hb]
  · simp only [if_neg hsteep]
    have hfalse (r : Traco) (hs : r.steep = false) : r.steep = true → r.d < r.D := by
      rw [hs]
      nofun
    by_cases horder : px > qx
    · obtain ⟨r, hs, ha, hb, hD, hd, hc, he⟩ := exists_traco false (a := qx) (b := qy) (c := px) (e := py)
        hqx (by omega) hpx' ⟨hqy, by unfold largura; omega⟩ ⟨hpy, by unfold largura; omega⟩ (by omega)
      refine ⟨r, hfalse r hs, by omega, .inr ⟨?_, ?_⟩, fun n color t => ?_⟩
      · rw [r.ponto_zero, hs, if_neg Bool.false_ne_true, ha, hb]
      · rw [r.ponto_last, hs, if_neg Bool.false_ne_true, hc, he]
      · rw [if_pos horder, hs, hc, he, ha, hb]
    · obtain ⟨r, hs, ha, hb, hD, hd, hc, he⟩ := exists_traco false (a := px) (b := py) (c := qx) (e := qy)
        hpx (by omega) hqx' ⟨hpy, by unfold largura; omega⟩ ⟨hqy, by unfold largura; omega⟩ (by omega)
      refine ⟨r, hfalse r hs, by omega, .inl ⟨?_, ?_⟩, fun n color t => ?_⟩
      · rw [r.ponto_zero, hs, if_neg Bool.false_ne_true, ha, hb]
      · rw [r.ponto_last, hs, if_neg Bool.false_ne_true, hc, he]
      · rw [if_neg horder, hs, hc, he, ha, hb]

/-- Between points of the screen `drawLine` draws the pixels of a line, and changes nothing else of the
memory around the framebuffer. -/
theorem drawLine_draws_line (p q : Int × Int) (color : UInt8) (hp : NaTela p) (hq : NaTela q)
    (hc : color.toNat < 16) :
    ∃ ponto, Reta p q ponto ∧ (lugares ponto (maior p q)).card = maior p q + 1 ∧
      ∀ t n, 640 < n → ∃ t', drawLine n p.1 p.2 q.1 q.2 color t = some t' ∧
        Painted (lugares ponto (maior p q)) color (nibbles t.fb) (nibbles t'.fb) := by
  obtain ⟨r, hsteep, hD, hends, hdraw⟩ := drawLine_traco hp hq
  have hreta : Reta p q r.ponto := by
    have htela (k : Nat) (hk : r.ponto k = p ∨ r.ponto k = q) : NaTela (r.ponto k) := by
      rcases hk with hk | hk <;> rw [hk] <;> assumption
    have hdrawn : Reta (r.ponto 0) (r.ponto r.D) r.ponto := by
      have h0 := htela 0 (by tauto)
      have hD := htela r.D (by tauto)
      cases hs : r.steep with
      | true => exact Traco.reta_ingreme hs (hsteep hs) h0 hD
      | false => exact Traco.reta_deitada hs h0 hD
    rcases hends with ⟨h0, hD⟩ | ⟨h0, hD⟩
    · rwa [h0, hD] at hdrawn
    · rw [h0, hD] at hdrawn
      exact hdrawn.symm
  refine ⟨r.ponto, hreta, hreta.card_lugares, fun t n hn => ?_⟩
  have hbound := r.principal
  unfold largura at hbound
  refine ⟨r.desenha color t (maior p q + 1), ?_, hreta.painted hc t⟩
  rw [hdraw, r.traca_eq color t (by omega), hD]

/-- From the lower left corner of the screen to the upper right one. -/
theorem drawLine_diagonal :
    ∃ ponto, Reta (0, 479) (639, 0) ponto ∧ (lugares ponto (maior (0, 479) (639, 0))).card =
        maior (0, 479) (639, 0) + 1 ∧
      ∀ t n, 640 < n → ∃ t', drawLine n 0 479 639 0 15 t = some t' ∧
        Painted (lugares ponto (maior (0, 479) (639, 0))) 15 (nibbles t.fb) (nibbles t'.fb) :=
  drawLine_draws_line (0, 479) (639, 0) 15 (by decide) (by decide) (by decide)

end Lines

end Orion68.VgaLine
