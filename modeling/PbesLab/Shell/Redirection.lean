import PbesLab.Shell.Expansion

namespace PbesLab.Shell

def redirect (h : Host) (r : Redirect) : Run Bool := do
  let target ← expandText h r.target
  let toSink (sink? : Option Sink) : Run Bool := do
    sink?.forM fun s => modify fun p => p.setStream r.stream s
    return sink?.isSome
  let toInput (bytes? : Option (List UInt8)) : Run Bool := do
    if r.stream = 0 then bytes?.forM fun bytes => modify fun p => { p with input := bytes }
    return bytes?.isSome
  match r.kind with
  | .read => toInput (← readNamed? target)
  | .here => toInput (some (bytesOf target))
  | .write => toSink (← openSink? target false)
  | .append => toSink (← openSink? target true)
  | .copy =>
    match Numeral.decimal? target with
    | some n => if r.stream = 0 ∨ n = 0 then return true else toSink ((← get).streams.lookup n)
    | none =>
      if target ≠ "-" then return false
      if r.stream = 0 then modify fun p => { p with input := [] }
      else modify fun p => { p with streams := p.streams.filter (·.1 ≠ r.stream) }
      return true

def redirectAll (h : Host) (rs : List Redirect) : Run Bool :=
  rs.foldlM (fun ok r => if ok then redirect h r else return false) true

/-- Runs a step with redirections that last as long as it does. Without them it is not run, and
there is no status. -/
def redirected (h : Host) (rs : List Redirect) (step : Run Nat) : Run (Option Nat) := do
  if rs.isEmpty then return some (← step)
  let p ← get
  let goBack : Run Unit := modify fun q =>
    { q with
      streams := p.streams
      input := if rs.any (·.stream = 0) then p.input else q.input }
  let status ← tryCatch (do
    if ← redirectAll h rs then some <$> step else return none) fun stop => do
      goBack
      throw stop
  goBack
  return status

end PbesLab.Shell
