import Rebuild.Log.Event

/-!
# Actions

What builders and caches do: they change a world and tell a log. A world has parts, such as a disk
or a cache, and what works on a part works on the world.
-/
namespace Rebuild

/-- A world, and what the log was told, the latest first. -/
structure Traced (σ : Type) where
  world : σ
  log : List Event := []

/-- Something that changes a world and tells the log. -/
abbrev Action (σ α : Type) := StateM (Traced σ) α

namespace Action

variable {σ α : Type}

/-- Tells the log. -/
def tell (e : Event) : Action σ Unit := modify fun t => { t with log := e :: t.log }

/-- Tells the log several things, in order. -/
def tellAll (events : List Event) : Action σ Unit :=
  modify fun t => { t with log := events.reverse ++ t.log }

/-- Asks the world something. -/
def ask (question : σ → α) : Action σ α := return question (← get).world

/-- Changes the world. -/
def change (f : σ → α × σ) : Action σ α :=
  modifyGet fun t => let (a, world) := f t.world; (a, { t with world })

theorem bind_apply {β : Type} (x : Action σ α) (f : α → Action σ β) (t : Traced σ) :
    (x >>= f) t = f (x t).1 (x t).2 := rfl

theorem pure_apply (a : α) (t : Traced σ) : (pure a : Action σ α) t = (a, t) := rfl

theorem ask_apply (question : σ → α) (t : Traced σ) :
    (ask question : Action σ α) t = (question t.world, t) := rfl

theorem change_apply (f : σ → α × σ) (t : Traced σ) :
    (change f : Action σ α) t = ((f t.world).1, { t with world := (f t.world).2 }) := rfl

theorem tell_apply (e : Event) (t : Traced σ) :
    (tell e : Action σ Unit) t = ((), { t with log := e :: t.log }) := rfl

theorem tellAll_apply (events : List Event) (t : Traced σ) :
    (tellAll events : Action σ Unit) t = ((), { t with log := events.reverse ++ t.log }) := rfl

end Action

/-- A part of a world. -/
structure Part (σ τ : Type) where
  get : σ → τ
  set : τ → σ → σ

namespace Part

variable {σ τ α : Type}

/-- The world as a part of itself. -/
def whole : Part σ σ := ⟨id, fun t _ => t⟩

/-- Changes the world by changing the part. -/
def change (part : Part σ τ) (f : τ → α × τ) (s : σ) : α × σ :=
  let (a, t) := f (part.get s)
  (a, part.set t s)

end Part

end Rebuild
