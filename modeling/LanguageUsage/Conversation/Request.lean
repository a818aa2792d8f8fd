import LanguageUsage.Conversation.Instant
import LanguageUsage.Text.Blank
import LanguageUsage.Value.Display

/-!
# Conversation requests

The recent messages of one conversation, submitted together. A request belongs to a notification,
which it names itself or one of its messages names. Whatever value is the name, it is written as a text.

* `Message`, `Request`;
* `Request.latest`: the newest time among the messages, the first of those at the same instant;
* `Request.key`: the notification to which the request belongs;
* `Request.isKeyWritable`: its name can be written;
* `Request.texts`: the texts to be counted, which are those of the messages that are not blank.
-/

namespace LanguageUsage

/-- The field that names a notification. -/
def notificationField : String := "notification_key"

/-- The notification of a request that names none. -/
def defaultNotification : String := "default_notification_key"

/-- One message of a conversation. -/
structure Message where
  text : Option String := some ""
  author : Value := .text ""
  time : Option Moment := none
  extras : Value.Fields := []
  deriving DecidableEq, Repr, Inhabited

namespace Message

/-- There is no text, or nothing in it. -/
def isBlank (m : Message) : Bool :=
  match m.text with
  | none => true
  | some t => Text.isBlank t

end Message

/-- Messages submitted together. -/
structure Request where
  messages : List Message := []
  extras : Value.Fields := []
  deriving DecidableEq, Repr, Inhabited

/-- What a set of extra fields names as the notification, if anything. -/
def declaredKey (extras : Value.Fields) : Option Value :=
  (extras.get? notificationField).filter Value.isTruthy

namespace Request

/-- The later of two moments; the first one if they are the same instant. -/
def later (m n : Moment) : Moment := if m.instant < n.instant then n else m

/-- The times of the messages, each with its offset. -/
def times (r : Request) : List Moment := r.messages.filterMap fun m => m.time.map Moment.withOffset

/-- The newest time of any message. -/
def latest (r : Request) : Option Moment :=
  match r.times with
  | [] => none
  | m :: ms => some (ms.foldl later m)

/-- What names the notification: the request itself, else the first message to name any. -/
def declared (r : Request) : Option Value :=
  declaredKey r.extras <|> r.messages.findSome? fun m => declaredKey m.extras

/-- The notification to which the request belongs: the one that is named, else the default. -/
def key (r : Request) (default : Value) : Value :=
  match r.declared with
  | some v => .text v.display
  | none => default

/-- What names the notification has no number with too many digits to be written. -/
def isKeyWritable (r : Request) : Bool := r.declared.all Value.isWritable

/-- The notification is all that depends on what names it. -/
theorem key_congr {r r' : Request} (h : r'.declared = r.declared) : r'.key = r.key := by
  funext default
  rw [key, h, key]

theorem isKeyWritable_congr {r r' : Request} (h : r'.declared = r.declared) : r'.isKeyWritable = r.isKeyWritable := by
  rw [isKeyWritable, h, isKeyWritable]

/-- The texts of the messages that are not blank. -/
def texts (r : Request) : List String :=
  r.messages.filterMap fun m => if m.isBlank then none else m.text

end Request

end LanguageUsage
