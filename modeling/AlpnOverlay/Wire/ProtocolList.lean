import AlpnOverlay.Wire.Extension

/-!
The data of the protocol extension: a 16-bit length and the names, each behind its own 8-bit
length. A list holds at least one name and no name is empty.
-/
namespace AlpnOverlay.Wire.ProtocolList

def encodeName (name : Bytes) : Except Error Bytes :=
  if name.length > 255 then .error (.malformed .longProtocolName)
  else if name.isEmpty then .error (.malformed .emptyProtocolName)
  else .ok (UInt8.ofNat name.length :: name)

def encodeNames : List Bytes → Except Error Bytes
  | [] => .ok []
  | name :: names =>
    match encodeName name with
    | .error e => .error e
    | .ok bytes =>
      match encodeNames names with
      | .error e => .error e
      | .ok more => .ok (bytes ++ more)

def encode (names : List Bytes) : Except Error Bytes :=
  if names.isEmpty then .error (.malformed .noProtocolNames)
  else
    match encodeNames names with
    | .error e => .error e
    | .ok bytes =>
      if bytes.length ≤ maxLength16 then .ok (BigEndian.encode 2 bytes.length ++ bytes)
      else .error (.malformed .longProtocolList)

def readName : Read Bytes := do
  let name ← Read.vector 1 "ALPN protocol name"
  if name.isEmpty then Read.fault .emptyProtocolName else return name

theorem readName_shorter {c d : Cursor} {name : Bytes} (h : readName c = .ok name d) :
    d.rest.length < c.rest.length := by
  simp only [readName, bind, EStateM.bind] at h
  split at h
  · rename_i hv
    have := Read.vector_shorter hv
    split at h
    · cases h
    · cases h
      omega
  · cases h

def readNames (c : Cursor) : Except Error (List Bytes) :=
  if c.isEmpty then .ok []
  else
    match _h : readName c with
    | .error e _ => .error e
    | .ok name d =>
      match readNames d with
      | .error e => .error e
      | .ok names => .ok (name :: names)
termination_by c.rest.length
decreasing_by exact readName_shorter _h

/-- The inside of the list, when the list is all there is. -/
def readList : Read Bytes := do
  let list ← Read.vector 2 "ALPN protocol list"
  if ← Read.isEmpty then return list else Read.fault .bytesAfterProtocolList

def decode (data : Bytes) : Except Error (List Bytes) :=
  match Read.on data readList with
  | .error e => .error e
  | .ok list =>
    match readNames (Cursor.start list) with
    | .error e => .error e
    | .ok [] => .error (.malformed .noProtocolNames)
    | .ok names => .ok names

end AlpnOverlay.Wire.ProtocolList
