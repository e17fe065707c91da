import Mathlib.Tactic.Linarith
import Orion68.Vga.Cursor

namespace Orion68.VgaCircle

open Loops Vga VgaAccesses VgaCursor

section Pixels

/-- The pixels that `drawCircle` draws before its loop. -/
def quatro (x0 y0 r : Int) : List (Int × Int) := [(x0, y0 + r), (x0, y0 - r), (x0 + r, y0), (x0 - r, y0)]

/-- The images of a point under the eight reflections about the centre. -/
def oito (x0 y0 dx dy : Int) : List (Int × Int) :=
  [(x0 + dx, y0 + dy), (x0 - dx, y0 + dy), (x0 + dx, y0 - dy), (x0 - dx, y0 - dy),
    (x0 + dy, y0 + dx), (x0 - dy, y0 + dx), (x0 + dy, y0 - dx), (x0 - dy, y0 - dx)]

/-- The points at which the loop draws, from the variables before its first round on. -/
def pontos : Nat → Arco → Option (List Arco)
  | 0, _ => none
  | n + 1, a => if a.x < a.y then (pontos n a.avanca).map (a.avanca :: ·) else some []

/-- The pixels that are passed to `drawPixel` when the loop draws at these points. -/
def passados (x0 y0 r : Int) (as : List Arco) : List (Int × Int) :=
  quatro x0 y0 r ++ as.flatMap fun a => oito x0 y0 a.x a.y

variable {n : Nat} {a : Arco} {as : List Arco} {x0 y0 r : Int} {color : UInt8} {t : Tela}

theorem drawPixels_append (ps qs : List (Int × Int)) (color : UInt8) (t : Tela) :
    drawPixels (ps ++ qs) color t = drawPixels qs color (drawPixels ps color t) := List.foldl_append

theorem whileLoop_pontos (desenha : Arco → Tela → Tela) (n : Nat) (a : Arco) (t : Tela) :
    (whileLoop (fun s : Arco × Tela => decide (s.1.x < s.1.y))
        (fun (a, t) => (some (desenha a.avanca t)).map fun t => (a.avanca, t)) n (a, t)).map (·.2) =
      (pontos n a).map fun as => as.foldl (fun t a => desenha a t) t := by
  induction n generalizing a t with
  | zero => rfl
  | succ n ih =>
      rw [whileLoop, pontos]
      by_cases hlt : a.x < a.y
      · rw [if_pos (decide_eq_true hlt), if_pos hlt, Option.map_map]
        exact ih a.avanca (desenha a.avanca t)
      · rw [if_neg (by simpa using hlt), if_neg hlt]
        rfl

theorem drawCircle_eq (n : Nat) (x0 y0 r : Int) (color : UInt8) (t : Tela) :
    drawCircle n x0 y0 r color t = (pontos n (.inicio (short r))).map fun as =>
      drawPixels (passados (short x0) (short y0) (short r) as) color t := by
  have hfold (as : List Arco) (t : Tela) :
      as.foldl (fun t a => drawPixels (oito (short x0) (short y0) a.x a.y) color t) t =
        drawPixels (as.flatMap fun a => oito (short x0) (short y0) a.x a.y) color t := by
    induction as generalizing t with
    | nil => rfl
    | cons a as ih => rw [List.foldl_cons, List.flatMap_cons, drawPixels_append, ih]
  have hloop := whileLoop_pontos (fun a t => drawPixels (oito (short x0) (short y0) a.x a.y) color t) n
    (.inicio (short r)) (drawPixels (quatro (short x0) (short y0) (short r)) color t)
  refine hloop.trans (congrArg (Option.map · _) ?_)
  funext as
  rw [hfold, passados, drawPixels_append]

theorem mem_oito_iff {dx dy : Int} (p : Int × Int) :
    p ∈ oito x0 y0 dx dy ↔ (p.1 - x0).natAbs = dx.natAbs ∧ (p.2 - y0).natAbs = dy.natAbs ∨
      (p.1 - x0).natAbs = dy.natAbs ∧ (p.2 - y0).natAbs = dx.natAbs := by
  obtain ⟨u, v⟩ := p
  simp only [oito, List.mem_cons, Prod.mk.injEq, List.not_mem_nil, or_false, Int.natAbs_eq_natAbs_iff]
  constructor
  · rintro (h | h | h | h | h | h | h | h)
    · exact .inl ⟨by omega, by omega⟩
    · exact .inl ⟨by omega, by omega⟩
    · exact .inl ⟨by omega, by omega⟩
    · exact .inl ⟨by omega, by omega⟩
    · exact .inr ⟨by omega, by omega⟩
    · exact .inr ⟨by omega, by omega⟩
    · exact .inr ⟨by omega, by omega⟩
    · exact .inr ⟨by omega, by omega⟩
  · rintro (⟨hu | hu, hv | hv⟩ | ⟨hu | hu, hv | hv⟩)
    · exact .inl ⟨by omega, by omega⟩
    · exact .inr (.inr (.inl ⟨by omega, by omega⟩))
    · exact .inr (.inl ⟨by omega, by omega⟩)
    · exact .inr (.inr (.inr (.inl ⟨by omega, by omega⟩)))
    · exact .inr (.inr (.inr (.inr (.inl ⟨by omega, by omega⟩))))
    · exact .inr (.inr (.inr (.inr (.inr (.inr (.inl ⟨by omega, by omega⟩))))))
    · exact .inr (.inr (.inr (.inr (.inr (.inl ⟨by omega, by omega⟩)))))
    · exact .inr (.inr (.inr (.inr (.inr (.inr (.inr ⟨by omega, by omega⟩))))))

theorem oito_closed {dx dy ex ey : Int} (h : (x0 + ex, y0 + ey) ∈ oito x0 y0 dx dy) (q : Int × Int)
    (hq : q ∈ oito x0 y0 ex ey) : q ∈ oito x0 y0 dx dy := by
  rw [mem_oito_iff] at h hq ⊢
  rw [add_sub_cancel_left, add_sub_cancel_left] at h
  rcases h with ⟨hx, hy⟩ | ⟨hx, hy⟩
  · rwa [hx, hy] at hq
  · rw [hx, hy] at hq
    exact hq.symm

theorem mem_quatro_iff (p : Int × Int) : p ∈ quatro x0 y0 r ↔ p ∈ oito x0 y0 0 r := by
  simp only [quatro, oito, add_zero, sub_zero, List.mem_cons, List.not_mem_nil, or_false]
  tauto

theorem passados_closed {dx dy : Int} (h : (x0 + dx, y0 + dy) ∈ passados x0 y0 r as) (q : Int × Int)
    (hq : q ∈ oito x0 y0 dx dy) : q ∈ passados x0 y0 r as := by
  rw [passados, List.mem_append] at h ⊢
  rcases h with h | h
  · rw [mem_quatro_iff] at h
    exact .inl ((mem_quatro_iff q).mpr (oito_closed h q hq))
  · obtain ⟨a, ha, hp⟩ := List.mem_flatMap.mp h
    exact .inr (List.mem_flatMap.mpr ⟨a, ha, oito_closed hp q hq⟩)

end Pixels

section Arc

variable {n : Nat} {a : Arco} {x0 y0 r : Int}

/-- A value that a `short` holds as it is. -/
def Cabe (v : Int) : Prop := -32768 ≤ v ∧ v ≤ 32767

theorem Cabe.short_eq {v : Int} (h : Cabe v) : short v = v := VgaCursor.short_eq h.1 h.2

/-- The first half of a round, when the decision variable is not negative. -/
def desce (a : Arco) : Arco :=
  if a.f ≥ 0 then
    { a with y := short (a.y - 1), ddFy := short (a.ddFy + 2), f := short (a.f + short (a.ddFy + 2)) }
  else a

/-- The values that a round assigns to its variables, each before its conversion to `short`. -/
def atribuidos (a : Arco) : List Int :=
  (if a.f ≥ 0 then [a.y - 1, a.ddFy + 2, a.f + short (a.ddFy + 2)] else []) ++
    [(desce a).x + 1, (desce a).ddFx + 2, (desce a).f + short ((desce a).ddFx + 2)]

/-- The values of the declarations of `drawCircle`. -/
def declarados (r : Int) : List Int := [1 - r, 1, -2 * r, 0, r]

theorem avanca_eq (h : ∀ v ∈ atribuidos a, Cabe v) :
    a.avanca = if a.f ≥ 0 then
        ⟨a.f + (a.ddFy + 2) + (a.ddFx + 2), a.ddFx + 2, a.ddFy + 2, a.x + 1, a.y - 1⟩
      else ⟨a.f + (a.ddFx + 2), a.ddFx + 2, a.ddFy, a.x + 1, a.y⟩ := by
  have hround : a.avanca = { desce a with
      x := short ((desce a).x + 1), ddFx := short ((desce a).ddFx + 2)
      f := short ((desce a).f + short ((desce a).ddFx + 2)) } := rfl
  rw [hround]
  simp only [atribuidos, List.mem_append, List.mem_cons, List.not_mem_nil, or_false] at h
  have hx := (h _ (.inr (.inl rfl))).short_eq
  have hddFx := (h _ (.inr (.inr (.inl rfl)))).short_eq
  have hf := (h _ (.inr (.inr (.inr rfl)))).short_eq
  rw [hx, hf, hddFx]
  rw [desce]
  split
  next hpos =>
    simp only [if_pos hpos, List.mem_cons, List.not_mem_nil, or_false] at h
    rw [(h _ (.inl (.inl rfl))).short_eq, (h _ (.inl (.inr (.inr rfl)))).short_eq,
      (h _ (.inl (.inr (.inl rfl)))).short_eq]
  next hneg => rfl

/-- An eighth of a circle, up to a point. The decision variable is `f`; between two rounds it is not above
`2 * x`, and only the last round can leave it at `2 * x + 1`. -/
structure Circulo (r : Int) (a : Arco) : Prop where
  x : 0 ≤ a.x ∧ a.x ≤ r
  y : 0 ≤ a.y ∧ a.y ≤ r
  ddFx : a.ddFx = 2 * a.x + 1
  ddFy : a.ddFy = -2 * a.y
  f : a.f = (a.x + 1) ^ 2 + a.y ^ 2 - a.y - r ^ 2
  low : -2 * a.y ≤ a.f
  high : a.x < a.y → a.f ≤ 2 * a.x
  desvio : |a.x * a.x + a.y * a.y - r * r| ≤ a.y

theorem inicio_circulo (hr : 0 ≤ r ∧ r ≤ 16383) : Circulo r (.inicio r) := by
  have hf : short (1 - r) = 1 - r := short_eq (by omega) (by omega)
  have hddFy : short (-2 * r) = -2 * r := short_eq (by omega) (by omega)
  constructor <;> simp only [Arco.inicio, hf, hddFy]
  · omega
  · omega
  · omega
  · ring
  · omega
  · omega
  · simpa using hr.1

theorem Circulo.atribuidos_cabem (h : Circulo r a) (hr : r ≤ 16383) (hlt : a.x < a.y) :
    ∀ v ∈ atribuidos a, Cabe v := by
  obtain ⟨⟨hx, -⟩, ⟨-, hy⟩, hddFx, hddFy, -, hlow, hhigh, -⟩ := h
  have hf := hhigh hlt
  have hx2 : short (a.ddFx + 2) = a.ddFx + 2 := short_eq (by omega) (by omega)
  have hy2 : short (a.ddFy + 2) = a.ddFy + 2 := short_eq (by omega) (by omega)
  rw [atribuidos, desce]
  split
  next hpos =>
    have hsum : short (a.f + (a.ddFy + 2)) = a.f + (a.ddFy + 2) := short_eq (by omega) (by omega)
    simp only [hy2, hsum, hx2, List.cons_append, List.nil_append, List.forall_mem_cons, List.not_mem_nil,
      IsEmpty.forall_iff, implies_true, and_true, Cabe]
    omega
  next hneg =>
    simp only [hx2, List.nil_append, List.forall_mem_cons, List.not_mem_nil, IsEmpty.forall_iff, implies_true,
      and_true, Cabe]
    omega

theorem Circulo.avanca (h : Circulo r a) (hr : r ≤ 16383) (hlt : a.x < a.y) :
    Circulo r a.avanca ∧ a.avanca.y - a.avanca.x < a.y - a.x := by
  have hnext := avanca_eq (h.atribuidos_cabem hr hlt)
  obtain ⟨⟨hx, hx'⟩, ⟨hy, hy'⟩, hddFx, hddFy, hf, hlow, hhigh, -⟩ := h
  have hhigh := hhigh hlt
  rw [hnext]
  split
  next hpos =>
    have herror : (a.x + 1) * (a.x + 1) + (a.y - 1) * (a.y - 1) - r * r = a.f - (a.y - 1) := by
      rw [hf]
      ring
    refine ⟨⟨?_, ?_, ?_, ?_, ?_, ?_, ?_, ?_⟩, ?_⟩ <;> dsimp only
    · omega
    · omega
    · omega
    · omega
    · rw [hf, hddFx, hddFy]
      ring
    · omega
    · omega
    · rw [herror, abs_le]
      omega
    · omega
  next hneg =>
    have herror : (a.x + 1) * (a.x + 1) + a.y * a.y - r * r = a.f + a.y := by
      rw [hf]
      ring
    refine ⟨⟨?_, ?_, ?_, ?_, ?_, ?_, ?_, ?_⟩, ?_⟩ <;> dsimp only
    · omega
    · omega
    · omega
    · omega
    · rw [hf, hddFx]
      ring
    · omega
    · omega
    · rw [herror, abs_le]
      omega
    · omega

theorem Circulo.pontos (h : Circulo r a) (hr : r ≤ 16383) :
    ∃ as, (∀ a' ∈ as, Circulo r a') ∧ ∀ n, (a.y - a.x).toNat < n → pontos n a = some as := by
  generalize hm : (a.y - a.x).toNat = m
  induction m using Nat.strong_induction_on generalizing a with
  | h m ih =>
      by_cases hlt : a.x < a.y
      · obtain ⟨hnext, hnear⟩ := h.avanca hr hlt
        obtain ⟨as, has, hrest⟩ := ih _ (by omega) hnext rfl
        refine ⟨a.avanca :: as, List.forall_mem_cons.mpr ⟨hnext, has⟩, fun n hn => ?_⟩
        obtain ⟨n, rfl⟩ : ∃ k, n = k + 1 := Nat.exists_eq_succ_of_ne_zero (by omega)
        rw [VgaCircle.pontos, if_pos hlt, hrest n (by omega)]
        rfl
      · refine ⟨[], List.forall_mem_nil _, fun n hn => ?_⟩
        obtain ⟨n, rfl⟩ : ∃ k, n = k + 1 := Nat.exists_eq_succ_of_ne_zero (by omega)
        rw [VgaCircle.pontos, if_neg hlt]

theorem declarados_cabem (hr : 0 ≤ r ∧ r ≤ 16383) : ∀ v ∈ declarados r, Cabe v := by
  simp only [declarados, List.forall_mem_cons, List.not_mem_nil, IsEmpty.forall_iff, implies_true, and_true, Cabe]
  omega

theorem oito_cabem {dx dy : Int} (hx0 : 0 ≤ x0 ∧ x0 ≤ 16383) (hy0 : 0 ≤ y0 ∧ y0 ≤ 16383)
    (hdx : 0 ≤ dx ∧ dx ≤ 16383) (hdy : 0 ≤ dy ∧ dy ≤ 16383) :
    ∀ p ∈ oito x0 y0 dx dy, Cabe p.1 ∧ Cabe p.2 := by
  intro p hp
  rw [mem_oito_iff] at hp
  unfold Cabe
  omega

theorem passados_cabem {as : List Arco} (hx0 : 0 ≤ x0 ∧ x0 ≤ 16383) (hy0 : 0 ≤ y0 ∧ y0 ≤ 16383)
    (hr : 0 ≤ r ∧ r ≤ 16383) (has : ∀ a ∈ as, Circulo r a) :
    ∀ p ∈ passados x0 y0 r as, Cabe p.1 ∧ Cabe p.2 := by
  intro p hp
  rw [passados, List.mem_append] at hp
  rcases hp with hp | hp
  · exact oito_cabem hx0 hy0 ⟨le_refl 0, by omega⟩ hr p ((mem_quatro_iff p).mp hp)
  · obtain ⟨a, ha, hp⟩ := List.mem_flatMap.mp hp
    obtain ⟨⟨hx, hx'⟩, ⟨hy, hy'⟩, -⟩ := has a ha
    exact oito_cabem hx0 hy0 ⟨hx, by omega⟩ ⟨hy, by omega⟩ p hp

/-- The loop of `drawCircle` ends, no `short` of it overflows, neither a variable nor an argument of
`drawPixel`, every point of it is on the circle up to its `y`, and what it draws is symmetric. -/
theorem drawCircle_draws_circle (x0 y0 r : Int) (hx0 : 0 ≤ x0 ∧ x0 ≤ 16383) (hy0 : 0 ≤ y0 ∧ y0 ≤ 16383)
    (hr : 0 ≤ r ∧ r ≤ 16383) :
    ∃ as, (∀ n, r.toNat < n → pontos n (.inicio r) = some as ∧
        ∀ color t, drawCircle n x0 y0 r color t = some (drawPixels (passados x0 y0 r as) color t)) ∧
      (∀ v ∈ declarados r, Cabe v) ∧ (∀ a ∈ .inicio r :: as, a.x < a.y → ∀ v ∈ atribuidos a, Cabe v) ∧
      (∀ p ∈ passados x0 y0 r as, Cabe p.1 ∧ Cabe p.2) ∧
      (∀ a ∈ .inicio r :: as, |a.x * a.x + a.y * a.y - r * r| ≤ a.y) ∧
      ∀ dx dy, (x0 + dx, y0 + dy) ∈ passados x0 y0 r as →
        ∀ q ∈ oito x0 y0 dx dy, q ∈ passados x0 y0 r as := by
  have hstart := inicio_circulo hr
  obtain ⟨as, has, hloop⟩ := hstart.pontos hr.2
  have hall : ∀ a ∈ .inicio r :: as, Circulo r a := List.forall_mem_cons.mpr ⟨hstart, has⟩
  have hmeasure : ((Arco.inicio r).y - (Arco.inicio r).x).toNat = r.toNat := congrArg Int.toNat (sub_zero r)
  rw [hmeasure] at hloop
  refine ⟨as, fun n hn => ⟨hloop n hn, fun color t => ?_⟩, declarados_cabem hr, ?_, passados_cabem hx0 hy0 hr has,
    fun a ha => (hall a ha).desvio, fun dx dy => passados_closed⟩
  · rw [drawCircle_eq, short_eq (v := x0) (by omega) (by omega), short_eq (v := y0) (by omega) (by omega),
      short_eq (v := r) (by omega) (by omega), hloop n hn]
    rfl
  · intro a ha hlt
    exact (hall a ha).atribuidos_cabem hr.2 hlt

/-- The greatest radius around the last centre. -/
theorem drawCircle_greatest :
    ∃ as, (∀ n, (16383 : Int).toNat < n → pontos n (.inicio 16383) = some as ∧
        ∀ color t, drawCircle n 16383 16383 16383 color t =
          some (drawPixels (passados 16383 16383 16383 as) color t)) ∧
      (∀ v ∈ declarados 16383, Cabe v) ∧ (∀ a ∈ .inicio 16383 :: as, a.x < a.y → ∀ v ∈ atribuidos a, Cabe v) ∧
      (∀ p ∈ passados 16383 16383 16383 as, Cabe p.1 ∧ Cabe p.2) ∧
      (∀ a ∈ .inicio 16383 :: as, |a.x * a.x + a.y * a.y - 16383 * 16383| ≤ a.y) ∧
      ∀ dx dy, (16383 + dx, 16383 + dy) ∈ passados 16383 16383 16383 as →
        ∀ q ∈ oito 16383 16383 dx dy, q ∈ passados 16383 16383 16383 as :=
  drawCircle_draws_circle 16383 16383 16383 (by decide) (by decide) (by decide)

end Arc

end Orion68.VgaCircle
