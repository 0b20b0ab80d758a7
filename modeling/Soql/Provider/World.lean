import Soql.Provider.Chat
import Soql.World

namespace Soql

def Reply.ofExcept {α : Type} : Except Failure α → Reply α
  | .ok a => .answered a
  | .error f => .failed f

def onFirst {σ τ α : Type} (work : StateM σ α) : StateM (σ × τ) α :=
  modifyGet fun (s, t) =>
    let (a, s) := work s
    (a, (s, t))

def onSecond {σ τ α : Type} (work : StateM τ α) : StateM (σ × τ) α :=
  modifyGet fun (s, t) =>
    let (a, t) := work t
    (a, (s, t))

def World.withProvider {σ τ : Type} (w : World σ) (p : Provider τ) (m : Models) : World (σ × τ) where
  catalog tenant := onFirst (w.catalog tenant)
  detail tenant name := onFirst (w.detail tenant name)
  vectors tenant names := onFirst (w.vectors tenant names)
  search tenant text := onFirst (w.search tenant text)
  embed text := do
    return .ofExcept (← onSecond (p.vector m.embedding text))
  complete role prompt := do
    return .ofExcept ((← onSecond (p.complete (m.request role prompt))).map (·.text))

end Soql
