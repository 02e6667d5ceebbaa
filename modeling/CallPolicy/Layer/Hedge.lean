/-
The hedge layer.

The operation is started once, and when it is still suspended after a delay it
is started a second time beside the first. Whichever ends first, with a value
or a failure, decides; the other one's token is cancelled and it is dropped.
Nothing is launched under a cancelled token.

Both run under child tokens. The first attempt is always looked at first, so it
wins when both end at the same instant. When the delay is over it is looked at
twice: it may have cancelled its own token the first time.
-/
import CallPolicy.Activity

namespace CallPolicy.Operation

/-- The state of the hedge layer. -/
inductive HedgeState (σ : Type)
  /-- The first attempt is alone and may be joined at the instant `launchAt`. -/
  | early (caller token : Token) (launchAt : Nat) (first : σ)
  /-- The first attempt is alone for good. -/
  | alone (first : σ)
  /-- Two attempts race, each under its own token. -/
  | racing (token : Token) (first : σ) (rivalToken : Token) (rival : σ)

/-- The rival has been started or resumed, with the first attempt suspended. -/
def judgeRival (site : Site) {op : Operation} (token : Token) (first : op.State)
    (rivalToken : Token) :
    Status op.State Result × World → Status (HedgeState op.State) Result × World
  | (.pending rival, w) => (.pending (.racing token first rivalToken rival), w)
  | (.done r, w) =>
    (.done r, ((w.cancel token).emit site .hedgeWon).releaseAll (op.holdings first))
  | (.panicked t, w) => (.panicked t, w.releaseAll (op.holdings first))

/-- The first attempt has been resumed and stays alone. -/
def judgeAlone {op : Operation} :
    Status op.State Result × World → Status (HedgeState op.State) Result × World
  | (.pending first, w) => (.pending (.alone first), w)
  | (.done r, w) => (.done r, w)
  | (.panicked t, w) => (.panicked t, w)

/-- The instant of the launch has come, with the first attempt suspended. It is
looked at once more, before the rival starts or because it stays alone. -/
def launch (site : Site) (delay : Duration) {op : Operation} (caller token : Token)
    (first : op.State) (w : World) : Status (HedgeState op.State) Result × World :=
  if w.isCancelled caller then judgeAlone (op.resume first w)
  else
    let (rivalToken, w) := (w.emit site (.hedgeLaunched delay)).mint site.call caller
    match op.resume first w with
    | (.pending first, w) => judgeRival site token first rivalToken (op.start rivalToken w)
    | (.done r, w) => (.done r, w.cancel rivalToken)
    | (.panicked t, w) => (.panicked t, w)

/-- The first attempt has been started or resumed while it is alone. -/
def judgeFirst (site : Site) (delay : Duration) {op : Operation} (caller token : Token)
    (launchAt : Nat) :
    Status op.State Result × World → Status (HedgeState op.State) Result × World
  | (.pending first, w) =>
    if launchAt ≤ w.now then launch site delay caller token first w
    else (.pending (.early caller token launchAt first), w)
  | (.done r, w) => (.done r, w)
  | (.panicked t, w) => (.panicked t, w)

/-- An operation with a second attempt against slowness. -/
def withHedge (site : Site) (delay : Duration) (op : Operation) : Operation where
  State := HedgeState op.State
  start caller w :=
    let (token, w) := w.mint site.call caller
    judgeFirst site delay caller token (w.wakeTime delay) (op.start token w)
  resume
    | .early caller token launchAt first, w =>
      judgeFirst site delay caller token launchAt (op.resume first w)
    | .alone first, w => judgeAlone (op.resume first w)
    | .racing token first rivalToken rival, w =>
      match op.resume first w with
      | (.pending first, w) => judgeRival site token first rivalToken (op.resume rival w)
      | (.done r, w) => (.done r, (w.cancel rivalToken).releaseAll (op.holdings rival))
      | (.panicked t, w) => (.panicked t, w.releaseAll (op.holdings rival))
  holdings
    | .early _ _ _ first => op.holdings first
    | .alone first => op.holdings first
    | .racing _ first _ rival => op.holdings rival ++ op.holdings first
  deadlines
    | .early _ _ launchAt first => launchAt :: op.deadlines first
    | .alone first => op.deadlines first
    | .racing _ first _ rival => op.deadlines first ++ op.deadlines rival

section

variable (site : Site) (delay : Duration) {op : Operation} (caller token rivalToken : Token)
  (first rival : op.State) (w : World)

/-- The launch, with the token of the rival and the world it begins in written out. -/
theorem launch_eq :
    launch site delay caller token first w =
      if w.isCancelled caller then judgeAlone (op.resume first w)
      else match op.resume first ((w.emit site (.hedgeLaunched delay)).mint site.call caller).2 with
        | (.pending first, w') =>
          judgeRival site token first ((w.emit site (.hedgeLaunched delay)).mint site.call caller).1
            (op.start ((w.emit site (.hedgeLaunched delay)).mint site.call caller).1 w')
        | (.done r, w') =>
          (.done r, w'.cancel ((w.emit site (.hedgeLaunched delay)).mint site.call caller).1)
        | (.panicked t, w') => (.panicked t, w') := rfl

/-- The first attempt of a race is looked at before the rival. -/
theorem withHedge_resume_racing :
    (withHedge site delay op).resume (.racing token first rivalToken rival) w =
      match op.resume first w with
      | (.pending first, w) => judgeRival site token first rivalToken (op.resume rival w)
      | (.done r, w) => (.done r, (w.cancel rivalToken).releaseAll (op.holdings rival))
      | (.panicked t, w) => (.panicked t, w.releaseAll (op.holdings rival)) := rfl

end

end CallPolicy.Operation
