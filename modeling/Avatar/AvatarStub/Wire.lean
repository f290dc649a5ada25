import Avatar.AvatarStub.Lowlevel
import Avatar.Targets.Avatarstub

/-! The stub at the other end of the line: it gets frames and sends frames, and what it sends goes through the
    receiver thread. -/

namespace Avatar
open Bytes AvatarLowlevelProtocol

/-- What the stub makes of the bytes that it gets, and sends back. -/
abbrev Device (σ : Type) := List Byte → σ → List Byte × σ

/-- The messages that the receiver thread hands on. -/
def received (bytes : List Byte) : List AvatarMessage := (run .init bytes).2.filterMap parseMessage

/-- A message that no operation expects, as good as none. -/
def unexpected : AvatarMessage := ⟨0, "", []⟩

/-- The stub as the operations see it. -/
def Device.stub {σ : Type} (device : Device σ) : Stub σ := fun body s =>
  let (bytes, next) := device (rawMessage body) s
  ((received bytes).head?.getD unexpected, next)

/-- The stub gets a command in a frame, as `send_message` writes it, and sends its reply in one. -/
def Device.Frames {σ : Type} (device : Device σ) (handle : List Byte → σ → List Byte × σ) : Prop :=
  ∀ body s, device (rawMessage body) s = (rawMessage (handle body s).1, (handle body s).2)

end Avatar
