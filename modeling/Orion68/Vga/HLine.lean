import Orion68.Vga.Painting

namespace Orion68.VgaHLine

open Painting Vga VgaAccesses VgaCursor VgaPainting

section Sets

variable {x y w i : Int}

theorem short_screen {v m : Int} (hm : m ≤ 32768) : 0 ≤ short v ∧ short v < m ↔ v % 65536 < m := by
  rw [short, Int.bmod_def]
  omega

theorem short_emod {v : Int} (hv : 0 ≤ short v) : short v = v % 65536 := by
  rw [short, Int.bmod_def] at *
  omega

theorem mem_pixel : i ∈ pixel x y ↔ x % 65536 < 640 ∧ y % 65536 < 480 ∧ i = 640 * (y % 65536) + x % 65536 := by
  have hx : 0 ≤ short x ∧ short x < largura ↔ x % 65536 < 640 := short_screen (by decide)
  have hy : 0 ≤ short y ∧ short y < altura ↔ y % 65536 < 480 := short_screen (by decide)
  unfold pixel
  rw [Set.mem_ofPred_eq, ← and_assoc, hx, ← and_assoc (a := 0 ≤ short y), hy]
  apply and_congr_right
  intro hxin
  apply and_congr_right
  intro hyin
  rw [short_emod (hx.mpr hxin).1, short_emod (hy.mpr hyin).1]
  rfl

/-- What `drawHLine` paints. -/
def tracado (x y w : Int) : Set Int :=
  {i | ¬ (x ≥ largura ∨ y ≥ altura) ∧ ((x % 2 = 1 ∧ i ∈ pixel x y) ∨
    ((fim x w - par x) % 2 = 1 ∧ i ∈ pixel (fim x w - 1) y) ∨
    (640 * y + par x ≤ i ∧ i < 640 * y + par x + 2 * ((fim x w - par x) / 2)))}

def linhaDePixels (x y w : Int) (color : UInt8) (t : Tela) : Tela :=
  (List.range w.toNat).foldl (fun t (k : Nat) => drawPixel (x + k) y color t) t

def linha (x y w : Int) : Set Int := {i | ∃ k : Nat, k < w ∧ i ∈ pixel (x + k) y}

variable {c : UInt8}

theorem painted_linhaDePixels (hc : c.toNat < 16) (x y w : Int) (t : Tela) :
    Painted (linha x y w) c (nibbles t.fb) (nibbles (linhaDePixels x y w c t).fb) := by
  refine (painted_pixels hc (List.range w.toNat) (fun k : Nat => (x + k, y)) t).congr fun i => ?_
  apply exists_congr
  intro k
  rw [List.mem_range, Int.lt_toNat]

theorem painted_ite {p : Prop} [Decidable p] {S : Set Int} {t u : Tela}
    (h : Painted S c (nibbles t.fb) (nibbles u.fb)) :
    Painted {i | p ∧ i ∈ S} c (nibbles t.fb) (nibbles (if p then u else t).fb) := by
  split
  next hp => exact h.congr fun i => (and_iff_right hp).symm
  next hp => exact (Painted.refl c _).congr fun i => iff_of_false (Set.notMem_empty i) fun hi => hp hi.1

theorem painted_drawHLine (hc : c.toNat < 16) (x y w : Int) (t : Tela) :
    Painted (tracado x y w) c (nibbles t.fb) (nibbles (drawHLine x y w c t).fb) := by
  by_cases hout : x ≥ largura ∨ y ≥ altura
  · rw [drawHLine, if_pos hout]
    exact (Painted.refl c _).congr fun i => iff_of_false (Set.notMem_empty i) fun hi => hi.1 hout
  · have hx : x < largura := by omega
    have hy : y < altura := by omega
    rw [drawHLine_eq c t hx hy]
    have hleft := painted_ite (p := x % 2 = 1) (painted_drawPixel hc x y t)
    have hends := hleft.trans (painted_ite (p := (fim x w - par x) % 2 = 1)
      (painted_drawPixel hc (fim x w - 1) y (if x % 2 = 1 then drawPixel x y c t else t)))
    have hall := hends.trans (painted_ite (p := 0 < (fim x w - par x) / 2)
      (painted_memset hc (320 * y + par x / 2) ((fim x w - par x) / 2) (pontas x y w c t)))
    refine hall.congr fun i => ?_
    have hpar : par x % 2 = 0 := by
      unfold par
      omega
    unfold tracado
    simp only [Set.mem_union, Set.mem_ofPred_eq, hout, not_false_eq_true, true_and]
    rw [or_assoc]
    apply or_congr_right
    apply or_congr_right
    omega

theorem mem_linha : i ∈ linha x y w ↔
    ∃ k : Nat, k < w ∧ (x + k) % 65536 < 640 ∧ y % 65536 < 480 ∧ i = 640 * (y % 65536) + (x + k) % 65536 := by
  unfold linha
  simp only [Set.mem_ofPred_eq, mem_pixel]

def LinhaExata (x y w : Int) : Prop :=
  if x ≥ largura ∨ y ≥ altura then
    y % 65536 ≥ 480 ∨ ¬ (0 < w ∧ (x % 65536 < 640 ∨ 65536 < x % 65536 + w))
  else if w ≤ 0 then
    y % 65536 ≥ 480 ∨
      ¬ (x % 2 = 1 ∧ x % 65536 < 640) ∧ ¬ ((x + w) % 2 = 1 ∧ (x + w - 1) % 65536 < 640)
  else if fim x w < par x + 2 then x + w ≤ largura ∨ y % 65536 ≥ 480
  else 0 ≤ y ∧ -1 ≤ x ∧ x + w ≤ largura

instance (x y w : Int) : Decidable (LinhaExata x y w) := by
  unfold LinhaExata
  infer_instance

theorem linha_eq_empty_iff : linha x y w = ∅ ↔
    y % 65536 ≥ 480 ∨ ¬ (0 < w ∧ (x % 65536 < 640 ∨ 65536 < x % 65536 + w)) := by
  rw [Set.eq_empty_iff_forall_notMem]
  constructor
  · intro h
    by_contra hno
    rw [not_or, not_not] at hno
    obtain ⟨hy, hw, hx⟩ := hno
    rcases hx with hx | hx
    · exact h _ (mem_linha.mpr ⟨0, by omega, by omega, by omega, rfl⟩)
    · by_cases hin : x % 65536 < 640
      · exact h _ (mem_linha.mpr ⟨0, by omega, by omega, by omega, rfl⟩)
      · exact h _ (mem_linha.mpr ⟨(65536 - x % 65536).toNat, by omega, by omega, by omega, rfl⟩)
  · intro h i hi
    obtain ⟨k, hk, hx, hy, -⟩ := mem_linha.mp hi
    omega

theorem fim_of_le (h : x + w ≤ 640) : fim x w = x + w := if_neg (Int.not_lt.mpr h)

theorem fim_of_lt (h : 640 < x + w) : fim x w = 639 := if_pos h

theorem fim_le (x w : Int) : fim x w ≤ 640 := by
  by_cases h : x + w ≤ 640
  · rw [fim_of_le h]
    exact h
  · rw [fim_of_lt (Int.not_le.mp h)]
    decide

theorem not_fora (hx : x < 640) (hy : y < 480) : ¬ (x ≥ largura ∨ y ≥ altura) := by
  unfold largura altura
  omega

theorem mem_tracado (hx : x < 640) (hy : y < 480) : i ∈ tracado x y w ↔
    (x % 2 = 1 ∧ x % 65536 < 640 ∧ y % 65536 < 480 ∧ i = 640 * (y % 65536) + x % 65536) ∨
    ((fim x w - par x) % 2 = 1 ∧ (fim x w - 1) % 65536 < 640 ∧ y % 65536 < 480 ∧
      i = 640 * (y % 65536) + (fim x w - 1) % 65536) ∨
    (640 * y + par x ≤ i ∧ i < 640 * y + par x + 2 * ((fim x w - par x) / 2)) := by
  unfold tracado
  rw [Set.mem_ofPred_eq, and_iff_right (not_fora hx hy), mem_pixel, mem_pixel]

theorem tracado_eq_empty (h : x ≥ largura ∨ y ≥ altura) : tracado x y w = ∅ :=
  Set.eq_empty_of_forall_notMem fun _ hi => hi.1 h

theorem borda_notMem_tracado (hx : -1 ≤ x) (hx' : x < 639) (hend : 640 < x + w) (r : Int) :
    640 * r + 639 ∉ tracado x y w := by
  by_cases hy : y < 480
  · rw [mem_tracado (Int.lt_trans hx' (by decide)) hy, fim_of_lt hend, par]
    rintro (⟨-, hcol, -, hplace⟩ | ⟨-, -, -, hplace⟩ | hplace)
    · omega
    · omega
    · omega
  · rw [tracado_eq_empty (.inr (Int.not_lt.mp hy))]
    exact Set.notMem_empty _

theorem tracado_eq_linha_of_nonpos (hx : x < 640) (hy : y < 480) (hw : w ≤ 0) :
    tracado x y w = linha x y w ↔ y % 65536 ≥ 480 ∨
      ¬ (x % 2 = 1 ∧ x % 65536 < 640) ∧ ¬ ((x + w) % 2 = 1 ∧ (x + w - 1) % 65536 < 640) := by
  have hempty : linha x y w = ∅ := linha_eq_empty_iff.mpr (by omega)
  have hfim : fim x w = x + w := fim_of_le (by omega)
  rw [hempty, Set.eq_empty_iff_forall_notMem]
  simp only [mem_tracado hx hy, hfim, par]
  constructor
  · intro h
    by_cases hrow : y % 65536 ≥ 480
    · exact .inl hrow
    refine .inr ⟨?_, ?_⟩
    · rintro ⟨hodd, hcol⟩
      exact h _ (.inl ⟨hodd, hcol, by omega, rfl⟩)
    · rintro ⟨hodd, hcol⟩
      exact h _ (.inr (.inl ⟨by omega, hcol, by omega, rfl⟩))
  · rintro h i (⟨hodd, hcol, hrow, -⟩ | ⟨hodd, hcol, hrow, -⟩ | hplace)
    · exact h.elim (fun h => absurd hrow (by omega)) fun h => h.1 ⟨hodd, hcol⟩
    · exact h.elim (fun h => absurd hrow (by omega)) fun h => h.2 ⟨by omega, hcol⟩
    · omega

theorem tracado_eq_linha_of_short (hx : x < 640) (hy : y < 480) (hw : 0 < w) (hshort : fim x w < par x + 2) :
    tracado x y w = linha x y w ↔ x + w ≤ 640 ∨ y % 65536 ≥ 480 := by
  constructor
  · intro h
    by_contra hno
    rw [not_or, not_le, not_le] at hno
    obtain ⟨hend, hrow⟩ := hno
    have hfim := fim_of_lt hend
    have hnear : 637 ≤ x := by
      rw [hfim, par] at hshort
      omega
    clear hshort
    by_cases hlast : x = 639
    · subst hlast
      by_cases hround : w < 65536
      · have hin : 640 * (y % 65536) + 638 ∈ tracado 639 y w := by
          rw [mem_tracado hx hy, hfim, par]
          exact .inr (.inl ⟨by omega, by omega, hrow, by omega⟩)
        rw [h, mem_linha] at hin
        obtain ⟨k, hk, -, -, hplace⟩ := hin
        omega
      · have hin : 640 * (y % 65536) + 637 ∈ linha 639 y w :=
          mem_linha.mpr ⟨65534, by omega, by omega, hrow, by omega⟩
        rw [← h, mem_tracado hx hy, hfim, par] at hin
        rcases hin with ⟨-, -, -, hplace⟩ | ⟨-, -, -, hplace⟩ | hplace
        · omega
        · omega
        · omega
    · have hin : 640 * (y % 65536) + 639 ∈ linha x y w :=
        mem_linha.mpr ⟨(639 - x).toNat, by omega, by omega, hrow, by omega⟩
      rw [← h] at hin
      exact borda_notMem_tracado (by omega) (by omega) hend _ hin
  · intro h
    ext i
    rw [mem_tracado hx hy, mem_linha]
    rcases h with hend | hrow
    · rw [fim_of_le hend] at hshort ⊢
      unfold par at hshort ⊢
      constructor
      · rintro (⟨hodd, hcol, hrow, hplace⟩ | ⟨hodd, hcol, hrow, hplace⟩ | hplace)
        · exact ⟨0, by omega, by omega, hrow, by omega⟩
        · exact ⟨(w - 1).toNat, by omega, by omega, hrow, by omega⟩
        · omega
      · rintro ⟨k, hk, hcol, hrow, hplace⟩
        have hk1 : k = 0 ∧ (x % 2 = 1 ∨ w = 1) ∨ k = 1 ∧ w = 2 := by omega
        rcases hk1 with ⟨rfl, hodd | rfl⟩ | ⟨rfl, rfl⟩
        · exact .inl ⟨hodd, by omega, hrow, by omega⟩
        · by_cases hodd : x % 2 = 1
          · exact .inl ⟨hodd, by omega, hrow, by omega⟩
          · exact .inr (.inl ⟨by omega, by omega, hrow, by omega⟩)
        · exact .inr (.inl ⟨by omega, by omega, hrow, by omega⟩)
    · constructor
      · rintro (⟨-, -, hin, -⟩ | ⟨-, -, hin, -⟩ | hplace)
        · exact absurd hin (by omega)
        · exact absurd hin (by omega)
        · omega
      · rintro ⟨k, -, -, hin, -⟩
        exact absurd hin (by omega)

theorem tracado_eq_linha_of_long (hx : x < 640) (hy : y < 480) (hw : 0 < w) (hlong : ¬ fim x w < par x + 2) :
    tracado x y w = linha x y w ↔ 0 ≤ y ∧ -1 ≤ x ∧ x + w ≤ 640 := by
  have hle := fim_le x w
  constructor
  · intro h
    have hfirst : 640 * y + par x ∈ tracado x y w := by
      rw [mem_tracado hx hy]
      omega
    rw [h, mem_linha] at hfirst
    obtain ⟨k, -, hcol, -, hplace⟩ := hfirst
    have hcol0 : 0 ≤ (x + k) % 65536 := Int.emod_nonneg _ (by decide)
    have hleft : 0 ≤ y ∧ -1 ≤ x := by
      rw [par] at hplace
      generalize (x + k) % 65536 = col at hcol hcol0 hplace
      omega
    refine ⟨hleft.1, hleft.2, ?_⟩
    by_contra hend
    rw [not_le] at hend
    have hin : 640 * (y % 65536) + 639 ∈ linha x y w :=
      mem_linha.mpr ⟨(639 - x).toNat, by omega, by omega, by omega, by omega⟩
    rw [← h] at hin
    rw [fim_of_lt hend, par] at hlong
    exact borda_notMem_tracado hleft.2 (by omega) hend _ hin
  · rintro ⟨hrow, hleft, hend⟩
    have hfim := fim_of_le hend
    have hy' : y % 65536 = y := Int.emod_eq_of_lt hrow (by omega)
    ext i
    rw [mem_tracado hx hy, mem_linha, hfim, hy']
    rw [hfim] at hlong
    unfold par at *
    constructor
    · rintro (⟨hodd, hcol, hrow, hplace⟩ | ⟨hodd, hcol, hrow, hplace⟩ | hplace)
      · exact ⟨0, by omega, by omega, hrow, by omega⟩
      · exact ⟨(w - 1).toNat, by omega, by omega, hrow, by omega⟩
      · exact ⟨(i - 640 * y - x).toNat, by omega, by omega, by omega, by omega⟩
    · rintro ⟨k, hk, hcol, hrow', hplace⟩
      have hcol' : (x + k) % 65536 = x + k := by omega
      rw [hcol'] at hplace
      by_cases hfirst : x % 2 = 1 ∧ k = 0
      · exact .inl ⟨hfirst.1, by omega, hrow', by omega⟩
      by_cases hlast : (x + w - (x + x % 2)) % 2 = 1 ∧ k + 1 = w
      · exact .inr (.inl ⟨hlast.1, by omega, hrow', by omega⟩)
      exact .inr (.inr ⟨by omega, by omega⟩)

theorem tracado_eq_linha_iff (x y w : Int) : tracado x y w = linha x y w ↔ LinhaExata x y w := by
  unfold LinhaExata
  by_cases hout : x ≥ largura ∨ y ≥ altura
  · rw [if_pos hout, tracado_eq_empty hout, ← linha_eq_empty_iff]
    exact eq_comm
  · have hx : x < 640 := by
      unfold largura at hout
      omega
    have hy : y < 480 := by
      unfold altura at hout
      omega
    rw [if_neg hout]
    by_cases hw : w ≤ 0
    · rw [if_pos hw]
      exact tracado_eq_linha_of_nonpos hx hy hw
    · rw [if_neg hw]
      by_cases hshort : fim x w < par x + 2
      · rw [if_pos hshort]
        exact tracado_eq_linha_of_short hx hy (by omega) hshort
      · rw [if_neg hshort]
        exact tracado_eq_linha_of_long hx hy (by omega) hshort

end Sets

section Rectangles

variable {x y w h i : Int} {c : UInt8}

def retanguloDePixels (x y w h : Int) (color : UInt8) (t : Tela) : Tela :=
  (List.range (short h).toNat).foldl
    (fun t (j : Nat) => linhaDePixels (short x) (short y + j) (short w) color t) t

def retangulo (x y w h : Int) : Set Int := {i | ∃ j : Nat, j < h ∧ i ∈ linha x (y + j) w}

/-- What `fillRect` paints. -/
def area (x y w h : Int) : Set Int :=
  {i | ¬ (x ≥ largura ∨ y ≥ altura) ∧ ∃ j : Nat, j < h ∧ i ∈ tracado x (y + j) w}

theorem painted_retanguloDePixels (hc : c.toNat < 16) (x y w h : Int) (t : Tela) :
    Painted (retangulo (short x) (short y) (short w) (short h)) c (nibbles t.fb)
      (nibbles (retanguloDePixels x y w h c t).fb) := by
  refine (painted_foldl (v := fun t : Tela => nibbles t.fb) (l := List.range (short h).toNat)
    (fun t (j : Nat) _ => painted_linhaDePixels hc (short x) (short y + j) (short w) t) t).congr fun i => ?_
  apply exists_congr
  intro j
  rw [List.mem_range, Int.lt_toNat]

theorem painted_fillRect (hc : c.toNat < 16) (x y w h : Int) (t : Tela) :
    Painted (area (short x) (short y) (short w) (short h)) c (nibbles t.fb)
      (nibbles (fillRect x y w h c t).fb) := by
  rw [fillRect]
  split
  next hout =>
    exact (Painted.refl c _).congr fun i => iff_of_false (Set.notMem_empty i) fun hi => hi.1 hout
  next hin =>
    refine (painted_foldl (v := fun t : Tela => nibbles t.fb) (l := List.range (short h).toNat)
      (fun t (j : Nat) _ => painted_drawHLine hc (short x) (short y + j) (short w) t) t).congr fun i => ?_
    unfold area
    rw [Set.mem_ofPred_eq, Set.mem_ofPred_eq, and_iff_right hin]
    apply exists_congr
    intro j
    rw [List.mem_range, Int.lt_toNat]

/-- The rectangles that are filled as their pixels would be. -/
def RetanguloExato (x y w h : Int) : Prop :=
  x ≥ largura ∨ y ≥ altura ∨ h ≤ 0 ∨
    if w ≤ 0 then y + h ≤ 0 ∨ ¬ (x % 2 = 1 ∧ 0 ≤ x) ∧ ¬ ((x + w) % 2 = 1 ∧ (x + w - 1) % 65536 < 640)
    else if fim x w < par x + 2 then x + w ≤ largura ∨ y + h ≤ 0
    else 0 ≤ y ∧ -1 ≤ x ∧ x + w ≤ largura

instance (x y w h : Int) : Decidable (RetanguloExato x y w h) := inferInstanceAs (Decidable (_ ∨ _))

theorem linhaExata_below (hy : altura ≤ y) (hy' : y < 65536) : LinhaExata x y w := by
  unfold LinhaExata altura at *
  rw [if_pos (.inr hy)]
  omega

/-- The values of the parameters of `fillRect`. -/
structure Curtos (x y w h : Int) : Prop where
  x : -32768 ≤ x ∧ x ≤ 32767
  y : -32768 ≤ y ∧ y ≤ 32767
  w : -32768 ≤ w ∧ w ≤ 32767
  h : -32768 ≤ h ∧ h ≤ 32767

theorem curtos (x y w h : Int) : Curtos (short x) (short y) (short w) (short h) :=
  ⟨short_bounds x, short_bounds y, short_bounds w, short_bounds h⟩

theorem area_eq_of_rows (hs : Curtos x y w h) (hin : ¬ (x ≥ largura ∨ y ≥ altura))
    (hrow : ∀ j : Nat, j < h → y + j < 480 → LinhaExata x (y + j) w) : area x y w h = retangulo x y w h := by
  ext i
  unfold area retangulo
  rw [Set.mem_ofPred_eq, Set.mem_ofPred_eq, and_iff_right hin]
  apply exists_congr
  intro j
  apply and_congr_right
  intro hj
  have hexact : LinhaExata x (y + j) w := by
    by_cases hbelow : y + j < 480
    · exact hrow j hj hbelow
    · have hy := hs.y
      have hh := hs.h
      exact linhaExata_below (Int.not_lt.mp hbelow) (by omega)
  rw [(tracado_eq_linha_iff x (y + j) w).mpr hexact]

theorem area_eq_retangulo_of_out (hs : Curtos x y w h) (hout : x ≥ largura ∨ y ≥ altura) :
    area x y w h = retangulo x y w h := by
  obtain ⟨hx, hy, hw, hh⟩ := hs
  ext i
  refine iff_of_false (fun hi => hi.1 hout) ?_
  rintro ⟨j, hj, hi⟩
  obtain ⟨k, hk, hcol, hrow, -⟩ := mem_linha.mp hi
  unfold largura altura at hout
  omega

theorem area_eq_retangulo_of_nonpos (hs : Curtos x y w h) (hx : x < 640) (hy : y < 480) (hh : 0 < h)
    (hw : w ≤ 0) : area x y w h = retangulo x y w h ↔
      y + h ≤ 0 ∨ ¬ (x % 2 = 1 ∧ 0 ≤ x) ∧ ¬ ((x + w) % 2 = 1 ∧ (x + w - 1) % 65536 < 640) := by
  have hxs := hs.x
  have hys := hs.y
  have hws := hs.w
  have hhs := hs.h
  have hin := not_fora hx hy
  have hempty : retangulo x y w h = ∅ := by
    refine Set.eq_empty_of_forall_notMem ?_
    rintro i ⟨j, -, hi⟩
    obtain ⟨k, hk, -⟩ := mem_linha.mp hi
    omega
  have hfim : fim x w = x + w := fim_of_le (by omega)
  constructor
  · intro h'
    rw [hempty, Set.eq_empty_iff_forall_notMem] at h'
    by_contra hno
    rw [not_or] at hno
    have hrow (i : Int) (hi : i ∈ tracado x (y + (-y).toNat) w) : False := h' i ⟨hin, (-y).toNat, by omega, hi⟩
    have hrowin : y + (-y).toNat < 480 := by omega
    simp only [mem_tracado hx hrowin, hfim, par] at hrow
    have hline : (y + (-y).toNat) % 65536 = y + (-y).toNat := by omega
    by_cases hleft : x % 2 = 1 ∧ 0 ≤ x
    · exact hrow _ (.inl ⟨hleft.1, by omega, by omega, rfl⟩)
    · have hright : (x + w) % 2 = 1 ∧ (x + w - 1) % 65536 < 640 := by
        by_contra hright
        exact hno.2 ⟨hleft, hright⟩
      exact hrow _ (.inr (.inl ⟨by omega, hright.2, by omega, rfl⟩))
  · intro h'
    apply area_eq_of_rows hs hin
    intro j hj hbelow
    unfold LinhaExata
    rw [if_neg (not_fora hx hbelow), if_pos hw]
    omega

theorem area_eq_retangulo_of_short (hs : Curtos x y w h) (hx : x < 640) (hy : y < 480) (hh : 0 < h)
    (hw : 0 < w) (hshort : fim x w < par x + 2) :
    area x y w h = retangulo x y w h ↔ x + w ≤ 640 ∨ y + h ≤ 0 := by
  have hxs := hs.x
  have hys := hs.y
  have hws := hs.w
  have hhs := hs.h
  have hin := not_fora hx hy
  constructor
  · intro h'
    by_contra hno
    rw [not_or, not_le] at hno
    have hfim := fim_of_lt hno.1
    have hrowin : y + (-y).toNat < 480 := by omega
    have hmax : 0 ≤ y + (-y).toNat := by omega
    by_cases hlast : x = 639
    · have hdrawn : 640 * (y + (-y).toNat) + 638 ∈ area x y w h := by
        refine ⟨hin, (-y).toNat, by omega, (mem_tracado hx hrowin).mpr ?_⟩
        rw [hfim, par]
        omega
      rw [h'] at hdrawn
      obtain ⟨j, hj, hi⟩ := hdrawn
      obtain ⟨k, hk, hcol, hrow, hplace⟩ := mem_linha.mp hi
      omega
    · have hpixel : 640 * (y + (-y).toNat) + 639 ∈ retangulo x y w h :=
        ⟨(-y).toNat, by omega, mem_linha.mpr ⟨(639 - x).toNat, by omega, by omega, by omega, by omega⟩⟩
      rw [← h'] at hpixel
      obtain ⟨-, j, -, hi⟩ := hpixel
      rw [hfim, par] at hshort
      exact borda_notMem_tracado (by omega) (by omega) hno.1 _ hi
  · intro h'
    apply area_eq_of_rows hs hin
    intro j hj hbelow
    unfold LinhaExata
    rw [if_neg (not_fora hx hbelow), if_neg (by omega), if_pos hshort]
    unfold largura
    omega

theorem area_eq_retangulo_of_long (hs : Curtos x y w h) (hx : x < 640) (hy : y < 480) (hh : 0 < h)
    (hw : 0 < w) (hlong : ¬ fim x w < par x + 2) :
    area x y w h = retangulo x y w h ↔ 0 ≤ y ∧ -1 ≤ x ∧ x + w ≤ 640 := by
  have hxs := hs.x
  have hys := hs.y
  have hws := hs.w
  have hhs := hs.h
  have hin := not_fora hx hy
  have hle := fim_le x w
  have hzero : y + (0 : Nat) = y := Int.add_zero y
  constructor
  · intro h'
    have hfirst : 640 * y + par x ∈ area x y w h := by
      refine ⟨hin, 0, hh, ?_⟩
      rw [hzero, mem_tracado hx hy]
      omega
    rw [h'] at hfirst
    obtain ⟨j, hj, hi⟩ := hfirst
    obtain ⟨k, -, hcol, -, hplace⟩ := mem_linha.mp hi
    have hcol0 : 0 ≤ (x + k) % 65536 := Int.emod_nonneg _ (by decide)
    have hrow0 : 0 ≤ (y + j) % 65536 := Int.emod_nonneg _ (by decide)
    have hbelow : y < 0 ∨ y ≤ (y + j) % 65536 := by omega
    have hleft : 0 ≤ y ∧ -1 ≤ x := by
      rw [par] at hplace hlong
      generalize (x + k) % 65536 = col at hcol hcol0 hplace
      generalize (y + j) % 65536 = row at hrow0 hbelow hplace
      omega
    refine ⟨hleft.1, hleft.2, ?_⟩
    by_contra hend
    rw [not_le] at hend
    rw [fim_of_lt hend, par] at hlong
    have hpixel : 640 * y + 639 ∈ retangulo x y w h := by
      refine ⟨0, hh, mem_linha.mpr ⟨(639 - x).toNat, by omega, by omega, by omega, ?_⟩⟩
      rw [hzero]
      omega
    rw [← h'] at hpixel
    obtain ⟨-, j', -, hi'⟩ := hpixel
    exact borda_notMem_tracado hleft.2 (by omega) hend _ hi'
  · rintro ⟨hrow, hleft, hend⟩
    apply area_eq_of_rows hs hin
    intro j hj hbelow
    unfold LinhaExata
    rw [if_neg (not_fora hx hbelow), if_neg (by omega), if_neg hlong]
    unfold largura
    omega

theorem area_eq_retangulo_iff (hs : Curtos x y w h) : area x y w h = retangulo x y w h ↔ RetanguloExato x y w h := by
  unfold RetanguloExato
  by_cases hout : x ≥ largura ∨ y ≥ altura
  · exact iff_of_true (area_eq_retangulo_of_out hs hout) (hout.imp_right .inl)
  · have hx : x < 640 := by
      unfold largura at hout
      omega
    have hy : y < 480 := by
      unfold altura at hout
      omega
    rw [not_or] at hout
    rw [or_iff_right hout.1, or_iff_right hout.2]
    by_cases hh : h ≤ 0
    · refine iff_of_true ?_ (.inl hh)
      apply area_eq_of_rows hs (not_or.mpr hout)
      intro j hj
      omega
    · rw [or_iff_right hh]
      rw [not_le] at hh
      by_cases hw : w ≤ 0
      · rw [if_pos hw]
        exact area_eq_retangulo_of_nonpos hs hx hy hh hw
      · rw [if_neg hw]
        rw [not_le] at hw
        by_cases hshort : fim x w < par x + 2
        · rw [if_pos hshort]
          exact area_eq_retangulo_of_short hs hx hy hh hw hshort
        · rw [if_neg hshort]
          exact area_eq_retangulo_of_long hs hx hy hh hw hshort

end Rectangles

section Agreement

/-- A line, and a rectangle, change the memory around the framebuffer on every content of it as their
pixels do exactly when they are exact in this sense. -/
theorem fast_lines_exact_iff (c : UInt8) (hc : c.toNat < 16) :
    (∀ x y w, (∀ t, (drawHLine x y w c t).fb = (linhaDePixels x y w c t).fb) ↔ LinhaExata x y w) ∧
      ∀ x y w h, (∀ t, (fillRect x y w h c t).fb = (retanguloDePixels x y w h c t).fb) ↔
        RetanguloExato (short x) (short y) (short w) (short h) := by
  have hother : ∃ t : Tela, ∀ i, nibbles t.fb i ≠ c := exists_nibbles_ne (telaInicial fun _ => 0) c
  have hfb (f g : Tela → Tela) : (∀ t, (f t).fb = (g t).fb) ↔ ∀ t, nibbles (f t).fb = nibbles (g t).fb :=
    forall_congr' fun t => nibbles_injective.eq_iff.symm
  constructor
  · intro x y w
    rw [hfb, ← tracado_eq_linha_iff]
    exact painted_agree_iff (v := fun t : Tela => nibbles t.fb) (painted_drawHLine hc x y w)
      (painted_linhaDePixels hc x y w) hother
  · intro x y w h
    rw [hfb, ← area_eq_retangulo_iff (curtos x y w h)]
    exact painted_agree_iff (v := fun t : Tela => nibbles t.fb) (painted_fillRect hc x y w h)
      (painted_retanguloDePixels hc x y w h) hother

theorem fast_lines_exact_white :
    (∀ x y w, (∀ t, (drawHLine x y w 15 t).fb = (linhaDePixels x y w 15 t).fb) ↔ LinhaExata x y w) ∧
      ∀ x y w h, (∀ t, (fillRect x y w h 15 t).fb = (retanguloDePixels x y w h 15 t).fb) ↔
        RetanguloExato (short x) (short y) (short w) (short h) :=
  fast_lines_exact_iff 15 (by decide)

/-- A line that reaches over the right border lacks the last pixel of the screen. -/
theorem line_over_border_cut :
    ¬ ∀ x y w c, c.toNat < 16 → ∀ t, (drawHLine x y w c t).fb = (linhaDePixels x y w c t).fb := by
  intro h
  have hbyte := congrFun (h 638 0 3 15 (by decide) (telaInicial fun _ => 0)) 319
  exact absurd hbyte (by decide)

end Agreement

end Orion68.VgaHLine
