import Bindery.Node.Rest

/-!
# Sessions with a node

A client is used in steps: its shared session is opened and closed, and requests are made. A request
goes through the shared session if one is open, else through one of its own, and it never changes
which. Where a request has no address, nothing is sent.
-/

namespace Bindery.Node

/-- One use of a client. The exchange of a request comes to the given outcome if it takes place. -/
inductive Use
  | enter
  | exit
  | call (r : Request) (o : Outcome)

structure Exchange where
  /-- Whether it went through the shared session. -/
  shared : Bool
  sent : List Message
  logs : List LogRecord
  answer : Except Error Json

namespace Rest

def exchange (levels : Nat) (n : Rest) (r : Request) (o : Outcome) : Exchange where
  shared := n.session
  sent := match message n r with
    | .ok m => [m]
    | .error _ => []
  logs := [record n r]
  answer := answer levels n r o

def use (levels : Nat) (n : Rest) : Use → Rest × Option Exchange
  | .enter => (n.enter, none)
  | .exit => (n.exit, none)
  | .call r o => (n, some (n.exchange levels r o))

def run (levels : Nat) (n : Rest) : List Use → Rest × List Exchange
  | [] => (n, [])
  | u :: rest =>
    let (n, exchange) := n.use levels u
    let (n, exchanges) := n.run levels rest
    (n, exchange.toList ++ exchanges)

end Rest

end Bindery.Node
