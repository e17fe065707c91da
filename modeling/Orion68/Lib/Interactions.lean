import Mathlib.Data.List.Basic
import Mathlib.Tactic.Common

namespace Orion68.Interactions

variable {Q : Type} {A : Q → Type} {α β σ : Type}

/-- A program that asks its surroundings; they may answer as they like. `stuck` is a loop that has
been given up. -/
inductive Prog (Q : Type) (A : Q → Type) (α : Type) : Type
  | done (a : α)
  | stuck
  | ask (q : Q) (next : A q → Prog Q A α)

namespace Prog

def bind (p : Prog Q A α) (f : α → Prog Q A β) : Prog Q A β :=
  match p with
  | done a => f a
  | stuck => stuck
  | ask q next => ask q fun a => bind (next a) f

instance : Monad (Prog Q A) where
  pure := done
  bind := bind

end Prog

open Prog

def query (q : Q) : Prog Q A (A q) := ask q done

theorem bind_assoc {γ : Type} (p : Prog Q A α) (f : α → Prog Q A β) (g : β → Prog Q A γ) :
    (p >>= f >>= g) = p >>= fun a => f a >>= g := by
  induction p with
  | done a => rfl
  | stuck => rfl
  | ask q next ih => exact congrArg (ask q) (funext ih)

section Runs

/-- What has been asked, with the answers, in a run that may go on (`none`) or has ended. -/
inductive Runs : Prog Q A α → List (Σ q, A q) → Option α → Prop
  | done (a : α) : Runs (done a) [] (some a)
  | cut (p : Prog Q A α) : Runs p [] none
  | ask {q : Q} {next : A q → Prog Q A α} {es : List (Σ q, A q)} {r : Option α} (a : A q) (h : Runs (next a) es r) :
      Runs (ask q next) (⟨q, a⟩ :: es) r

variable {p : Prog Q A α} {f : α → Prog Q A β} {es es₁ es₂ : List (Σ q, A q)} {r : Option β} {a : α} {q : Q}

theorem runs_ask_iff {next : A q → Prog Q A α} {r : Option α} :
    Runs (ask q next) es r ↔ es = [] ∧ r = none ∨ ∃ a es', es = ⟨q, a⟩ :: es' ∧ Runs (next a) es' r := by
  constructor
  · intro h
    cases h with
    | cut => exact .inl ⟨rfl, rfl⟩
    | ask a h => exact .inr ⟨a, _, rfl, h⟩
  · rintro (⟨rfl, rfl⟩ | ⟨a, es', rfl, h⟩)
    · exact .cut _
    · exact .ask a h

theorem runs_done_iff {r : Option α} : Runs (done a : Prog Q A α) es r ↔ es = [] ∧ (r = none ∨ r = some a) := by
  constructor
  · intro h
    cases h with
    | cut => exact ⟨rfl, .inl rfl⟩
    | done => exact ⟨rfl, .inr rfl⟩
  · rintro ⟨rfl, rfl | rfl⟩
    · exact .cut _
    · exact .done a

theorem Runs.bind (h : Runs p es₁ (some a)) (hf : Runs (f a) es₂ r) : Runs (p >>= f) (es₁ ++ es₂) r := by
  induction p generalizing es₁ with
  | done b =>
      obtain ⟨rfl, hb⟩ := runs_done_iff.mp h
      cases hb.resolve_left nofun
      exact hf
  | stuck => cases h
  | ask q next ih =>
      cases h with
      | ask b h => exact .ask b (ih b h)

theorem Runs.query_bind {f : A q → Prog Q A β} (b : A q) (h : Runs (f b) es r) :
    Runs (query q >>= f) (⟨q, b⟩ :: es) r := .ask b h

/-- A run of two programs, one after the other, is a run of the first that goes on, or one that has
ended and a run of the second. -/
theorem runs_bind_iff : Runs (p >>= f) es r ↔
    r = none ∧ Runs p es none ∨ ∃ a es₁ es₂, es = es₁ ++ es₂ ∧ Runs p es₁ (some a) ∧ Runs (f a) es₂ r := by
  constructor
  · intro h
    induction p generalizing es with
    | done a => exact .inr ⟨a, [], es, rfl, .done a, h⟩
    | stuck =>
        cases h
        exact .inl ⟨rfl, .cut _⟩
    | ask q next ih =>
        cases h with
        | cut => exact .inl ⟨rfl, .cut _⟩
        | ask b h =>
            rcases ih b h with ⟨hr, h⟩ | ⟨a, es₁, es₂, rfl, h₁, h₂⟩
            · exact .inl ⟨hr, .ask b h⟩
            · exact .inr ⟨a, ⟨q, b⟩ :: es₁, es₂, rfl, .ask b h₁, h₂⟩
  · rintro (⟨rfl, h⟩ | ⟨a, es₁, es₂, rfl, h₁, h₂⟩)
    · induction p generalizing es with
      | done a =>
          obtain ⟨rfl, -⟩ := runs_done_iff.mp h
          exact .cut _
      | stuck =>
          cases h
          exact .cut _
      | ask q next ih =>
          cases h with
          | cut => exact .cut _
          | ask b h => exact .ask b (ih b h)
    · exact h₁.bind h₂

theorem ended_bind_iff {b : β} : Runs (p >>= f) es (some b) ↔
    ∃ a es₁ es₂, es = es₁ ++ es₂ ∧ Runs p es₁ (some a) ∧ Runs (f a) es₂ (some b) := by
  rw [runs_bind_iff]
  exact or_iff_right nofun

theorem ended_ask_iff {next : A q → Prog Q A α} : Runs (ask q next) es (some a) ↔
    ∃ b es', es = ⟨q, b⟩ :: es' ∧ Runs (next b) es' (some a) := by
  rw [runs_ask_iff]
  exact or_iff_right nofun

theorem ended_query_bind_iff {f : A q → Prog Q A α} : Runs (query q >>= f) es (some a) ↔
    ∃ b es', es = ⟨q, b⟩ :: es' ∧ Runs (f b) es' (some a) := ended_ask_iff

theorem ended_done_iff {b : α} : Runs (done a : Prog Q A α) es (some b) ↔ es = [] ∧ a = b := by
  rw [runs_done_iff, eq_comm (a := a)]
  simp

def Asks (P : (Σ q, A q) → Prop) (p : Prog Q A α) : Prop := ∀ es r, Runs p es r → ∀ e ∈ es, P e

variable {P : (Σ q, A q) → Prop}

theorem asks_done (a : α) : Asks P (done a) := by
  intro es r h
  obtain ⟨rfl, -⟩ := runs_done_iff.mp h
  exact List.forall_mem_nil _

theorem asks_stuck : Asks P (stuck : Prog Q A α) := by
  intro es r h
  cases h
  exact List.forall_mem_nil _

theorem asks_ask {next : A q → Prog Q A α} (hq : ∀ a, P ⟨q, a⟩) (h : ∀ a, Asks P (next a)) : Asks P (ask q next) := by
  intro es r hr
  rcases runs_ask_iff.mp hr with ⟨rfl, -⟩ | ⟨a, es', rfl, h'⟩
  · exact List.forall_mem_nil _
  · exact List.forall_mem_cons.mpr ⟨hq a, h a es' r h'⟩

theorem Asks.bind (h : Asks P p) (hf : ∀ a, Asks P (f a)) : Asks P (p >>= f) := by
  intro es r hr
  rcases runs_bind_iff.mp hr with ⟨-, h'⟩ | ⟨a, es₁, es₂, rfl, h₁, h₂⟩
  · exact h es none h'
  · exact List.forall_mem_append.mpr ⟨h es₁ _ h₁, hf a es₂ r h₂⟩

end Runs

section Devices

def exec (dev : (q : Q) → σ → A q × σ) : Prog Q A α → σ → Option (α × σ)
  | done a, s => some (a, s)
  | stuck, _ => none
  | ask q next, s => exec dev (next (dev q s).1) (dev q s).2

variable {dev : (q : Q) → σ → A q × σ} {p : Prog Q A α} {f : α → Prog Q A β} {s t : σ} {a : α}

theorem exec_bind : exec dev (p >>= f) s = (exec dev p s).bind fun r => exec dev (f r.1) r.2 := by
  induction p generalizing s with
  | done a => rfl
  | stuck => rfl
  | ask q next ih => exact ih _

/-- The surroundings give these answers, one after the other, and are left in state `t`. -/
def Answered (dev : (q : Q) → σ → A q × σ) : List (Σ q, A q) → σ → σ → Prop
  | [], s, t => s = t
  | e :: es, s, t => (dev e.1 s).1 = e.2 ∧ Answered dev es (dev e.1 s).2 t

theorem exec_eq_some_iff : exec dev p s = some (a, t) ↔ ∃ es, Runs p es (some a) ∧ Answered dev es s t := by
  induction p generalizing s with
  | done b =>
      constructor
      · intro h
        obtain ⟨rfl, rfl⟩ := Prod.mk.inj (Option.some.inj h)
        exact ⟨[], .done b, rfl⟩
      · rintro ⟨es, hr, ht⟩
        obtain ⟨rfl, rfl⟩ := ended_done_iff.mp hr
        cases ht
        rfl
  | stuck => exact iff_of_false nofun fun ⟨_, hr, _⟩ => nomatch hr
  | ask q next ih =>
      rw [exec, ih]
      constructor
      · rintro ⟨es, hr, ht⟩
        exact ⟨⟨q, _⟩ :: es, .ask _ hr, rfl, ht⟩
      · rintro ⟨es, hr, ht⟩
        obtain ⟨b, es', rfl, hr'⟩ := ended_ask_iff.mp hr
        obtain ⟨hb, ht'⟩ := ht
        have hb : (dev q s).1 = b := hb
        rw [hb]
        exact ⟨es', hr', ht'⟩

theorem runs_of_exec (h : exec dev p s = some (a, t)) : ∃ es, Runs p es (some a) := by
  obtain ⟨es, hes, -⟩ := exec_eq_some_iff.mp h
  exact ⟨es, hes⟩

theorem exec_keeps {V : σ → Prop} (hdev : ∀ q s, V s → V (dev q s).2) (hs : V s) (h : exec dev p s = some (a, t)) :
    V t := by
  induction p generalizing s with
  | done b =>
      obtain ⟨-, rfl⟩ := Prod.mk.inj (Option.some.inj h)
      exact hs
  | stuck => cases h
  | ask q next ih => exact ih _ (hdev q s hs) h

end Devices

section Handling

variable {F W τ : Type} {B : W → Type}

/-- Each question of the program is carried out by a program of its own. -/
def handle (h : (q : Q) → Prog W B (A q)) : Prog Q A α → Prog W B α
  | done a => done a
  | stuck => stuck
  | ask q next => h q >>= fun a => handle h (next a)

/-- The program asks what `order` allows, from `f` on, and leaves it at `g`. -/
def Follows (order : F → Q → Option F) (p : Prog Q A α) (f g : F) : Prop :=
  match p with
  | done _ => f = g
  | stuck => True
  | ask q next => ∃ f', order f q = some f' ∧ ∀ a, Follows order (next a) f' g

variable {order : F → Q → Option F} {h : (q : Q) → Prog W B (A q)} {p : Prog Q A α} {k : α → Prog Q A β} {e f g : F}

theorem handle_bind : handle h (p >>= k) = handle h p >>= fun a => handle h (k a) := by
  induction p with
  | done a => rfl
  | stuck => rfl
  | ask q next ih =>
      change (h q >>= fun a => handle h (next a >>= k)) = (h q >>= fun a => handle h (next a)) >>= _
      rw [bind_assoc]
      exact congrArg (h q >>= ·) (funext ih)

theorem Follows.bind (hp : Follows order p e f) (hk : ∀ a, Follows order (k a) f g) : Follows order (p >>= k) e g := by
  induction p generalizing e with
  | done a =>
      obtain rfl := hp
      exact hk a
  | stuck => trivial
  | ask q next ih =>
      obtain ⟨e', he, hnext⟩ := hp
      exact ⟨e', he, fun a => ih a (hnext a)⟩

theorem follows_handle {order : F → W → Option F} (hh : ∀ q, Follows order (h q) f f) (p : Prog Q A α) :
    Follows order (handle h p) f f := by
  induction p with
  | done a => rfl
  | stuck => trivial
  | ask q next ih => exact (hh q).bind ih

theorem Follows.exec_keeps {V : F → σ → Prop} {high : (q : Q) → σ → A q × σ} {s t : σ} {a : α}
    (step : ∀ {f g : F} {q : Q} {s : σ}, order f q = some g → V f s → V g (high q s).2)
    (hp : Follows order p f g) (hs : V f s) (h : exec high p s = some (a, t)) : V g t := by
  induction p generalizing f s with
  | done b =>
      obtain rfl := hp
      obtain ⟨-, rfl⟩ := Prod.mk.inj (Option.some.inj h)
      exact hs
  | stuck => cases h
  | ask q next ih =>
      obtain ⟨f', hf, hnext⟩ := hp
      exact ih _ (hnext _) (step hf hs) h

/-- Where each allowed question is carried out as the surroundings of the upper level answer it, a
program that keeps to the order runs on the lower level as it does on the upper one. -/
theorem Follows.exec_handle {V : F → σ → Prop} {enc : F → σ → τ} {low : (w : W) → τ → B w × τ}
    {high : (q : Q) → σ → A q × σ} {s : σ}
    (step : ∀ {f g : F} {q : Q} {s : σ}, order f q = some g → V f s →
      exec low (h q) (enc f s) = some ((high q s).1, enc g (high q s).2) ∧ V g (high q s).2)
    (hp : Follows order p f g) (hs : V f s) :
    exec low (handle h p) (enc f s) = (exec high p s).map fun r => (r.1, enc g r.2) := by
  induction p generalizing f s with
  | done a =>
      obtain rfl := hp
      rfl
  | stuck => rfl
  | ask q next ih =>
      obtain ⟨f', hf, hnext⟩ := hp
      obtain ⟨hq, hs'⟩ := step hf hs
      change exec low (h q >>= fun a => handle h (next a)) (enc f s) = _
      rw [exec_bind, hq]
      exact ih _ (hnext _) hs'

end Handling

section Totality

variable {p : Prog Q A α} {f : α → Prog Q A β}

/-- The program comes to an end, whatever it is answered. -/
def Ends : Prog Q A α → Prop
  | done _ => True
  | stuck => False
  | ask _ next => ∀ a, Ends (next a)

theorem Ends.bind (h : Ends p) (hf : ∀ a, Ends (f a)) : Ends (p >>= f) := by
  induction p with
  | done a => exact hf a
  | stuck => exact h.elim
  | ask q next ih => exact fun a => ih a (h a)

theorem exec_of_ends {dev : (q : Q) → σ → A q × σ} (h : Ends p) (s : σ) : ∃ r, exec dev p s = some r := by
  induction p generalizing s with
  | done a => exact ⟨(a, s), rfl⟩
  | stuck => exact h.elim
  | ask q next ih => exact ih _ (h _) _

end Totality

end Orion68.Interactions
