/-!
# Names of devices and groups

An identity names one device or user, a group id one closed group. Both are opaque texts: nothing
here looks inside one. They are ordered by their UTF-8 bytes, which is the order of `String`.
-/

namespace Courier

/-- The address of one device, derived from its public key. -/
abbrev Identity := String

/-- The public key of a closed group. -/
abbrev GroupId := String

/-- A run of octets: message content, a signature, a key. -/
abbrev Octets := List UInt8

end Courier
