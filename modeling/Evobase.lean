import Evobase.Relations.CurrentPolicy
import Evobase.Relations.Blank
import Evobase.Relations.Placeholder
import Evobase.Relations.Limits
import Evobase.Relations.Overflow
import Evobase.Relations.Reorder
import Evobase.AppSpec.FactCodec
import Evobase.AppSpec.StrictDecode
import Evobase.AppSpec.SubmitFrame
import Evobase.AppSpec.Available
import Evobase.Protocol.Preflight
import Evobase.Store.Replay
import Evobase.Store.Repeat
import Evobase.Host.Release
import Evobase.Host.View
import Evobase.Core.Bootstrap
import Evobase.Messaging.Order
import Evobase.Flutter.Agreement
import Evobase.Builder.Input
import Evobase.Runtime.Outcome
import Evobase.Builder.Tabs
import Evobase.Flutter.Notifications
import Evobase.Auth.Lineage
import Evobase.Store.Room
import Evobase.Host.Answer
