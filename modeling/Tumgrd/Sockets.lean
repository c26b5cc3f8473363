import Tumgrd.Effect.Custody
import Tumgrd.Exec
import Tumgrd.Request
import Tumgrd.Truncation

/-! `ipdetect.c` among its sockets, call by call. Its log lines are left out. A
signal may interrupt a transfer; how many come is up to the surroundings. -/
namespace Tumgrd

open Effect Custody

/-- Whether the address is looked for without a service. -/
def probes (t : HttpTarget) (ipVersion : Str) : Bool :=
  ipFamilyFromVersion ipVersion = .ipv6 ∧ streqcase t.host.text defaultHttpTarget.host.text

section Connecting

variable {α : Type} {w : Holding Traffic NetHandle} {Q : α → Holding Traffic NetHandle → Prop}
  {fd : Nat}

end Connecting

section Exchange

variable {live : Finset NetHandle} {fd : Nat} {request response : Str} {w : Traffic}

end Exchange

section Probing

variable {live : Finset NetHandle} {fd : Nat} {w : Traffic}

end Probing

section Detection

variable {live : Finset NetHandle} {w : Traffic} {url ipVersion : Str}

end Detection

end Tumgrd
