import Xcpu.Libnpfs.Np
import Xcpu.Libspfs.NpRoundTrip

/-!
What `np_deserialize` finds in the packets of the constructors of libnpfs.
-/

namespace Xcpu.Libnpfs

open Xcpu.Packet Xcpu.Libspfs

/-- The constructors encode the numeric user and the extension, and the decoder reads them. -/
def Carried (dotu : Bool) : Message → Prop
  | .tauth .. | .tattach .. => dotu = false
  | .tcreate _ _ _ _ extension => dotu = true → strlen extension = 0
  | .rerror1 .. => False
  | m => m.Roomy .libnpfs

section Bodies

variable {lib : Library} {dotu : Bool} {m : Message}

end Bodies

section Cursor

variable {Value : Type} {good : Value → Prop} {data back : List UInt8} {position : Nat}

end Cursor

/-- The packet of the message is read back whatever it is decoded over. -/
def RoundTrips (dotu : Bool) (m : Message) : Prop :=
  ∀ prev, m.RoundTrip .libnpfs dotu (npDeserialize prev · dotu)

section RoundTrips

variable {dotu : Bool} {m : Message}

end RoundTrips

end Xcpu.Libnpfs
