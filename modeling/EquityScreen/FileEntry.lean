namespace EquityScreen

inductive FileEntry where
  | absent
  | directory
  | file (bytes : ByteArray)

namespace FileEntry

def isPresent : FileEntry → Bool
  | .absent => false
  | _ => true

end FileEntry

end EquityScreen
