import Soql.Context.Assembly
import Soql.Context.Cache
import Soql.World

namespace Soql

abbrev ContextCache := Cache Float Context

abbrev Keeping (σ : Type) := StateT ContextCache (StateM (Clocked σ))

/-- What is kept by default: a hundred contexts for five minutes. -/
def CachePolicy.standard : CachePolicy Float :=
  ⟨300.0, 100, 0.8⟩

namespace Assembler

variable {σ : Type} (w : World σ) (a : Assembler) (policy : CachePolicy Float)

def keepMade (request : String) (tenant : Tenant) : Ending Assembled → Keeping σ (Ending Assembled)
  | .done (.made context) => do
    let now ← StateT.lift Clocked.read
    modify fun cache => cache.put policy now request context tenant
    return .done (.made context)
  | ending => return ending

/-- The context of a request: one that is kept, or one made now, which is then kept. -/
def obtain (expires : Option Float) (request : String) (tenant : Tenant) :
    Keeping σ (Ending Assembled) := do
  let now ← StateT.lift Clocked.read
  let held ← modifyGet fun cache => cache.get policy now request tenant
  keepMade policy request tenant (← (a.assemble held request tenant).run w expires)

end Assembler

end Soql
