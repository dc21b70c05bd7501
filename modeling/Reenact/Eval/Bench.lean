import Reenact.Eval.Host

/-!
What a run starts from, and what is looked at when it is over.
-/

namespace Reenact

structure Bench where
  host : Host
  locals : List (String × Value)
  statics : List ((String × String) × Value)
  shownLocals : List String
  shownStatics : List (String × String)

namespace Bench

def machine (b : Bench) (heap : Heap) : Machine :=
  let m := b.locals.foldl (fun m (name, v) => m.bindLocal name (.live v)) (Machine.start heap)
  b.statics.foldl (fun m ((owner, name), v) => m.setStatic owner name v) m

end Bench

end Reenact
