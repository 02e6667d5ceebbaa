/-
Layers that change how a call ends: the fallback value and the deadline of the
whole call.
-/
import CallPolicy.Activity

namespace CallPolicy.Operation

/-- An operation whose failures are replaced by a fixed value. -/
def withFallback (site : Site) (value : String) (op : Operation) : Operation :=
  op.after fun r w =>
    match r with
    | .ok v => (.ok v, w)
    | .error f => (.ok value, w.emit site (.fellBack f))

/-- An operation that fails when it takes too long. -/
def withTimeout (site : Site) (length : Duration) (op : Operation) : Operation :=
  (op.within site.call length).after fun r w =>
    match r with
    | some r => (r, w)
    | none => (.error .timeout, w.emit site (.timedOut length))

end CallPolicy.Operation
