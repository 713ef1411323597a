import CellScript.CommandLine

/-! The program: connects the command line to the process it runs in. -/
namespace CellScript.Main

/-- The text of a file name or message; bytes that are no UTF-8 are replaced. -/
def toString (t : Text) : String :=
  String.ofList (t.runes.map fun r => Char.ofNat r.code)

partial def readAll (s : IO.FS.Stream) (soFar : ByteArray) : IO ByteArray := do
  let piece ← s.read 65536
  if piece.isEmpty then return soFar else readAll s (soFar ++ piece)

def stdin : IO Text := do return (← readAll (← IO.getStdin) .empty).data.toList

/-- What the system answers when the bytes of a directory are asked for. -/
def isDirectoryCode : UInt32 := 21

/-- What a path leads to. -/
def entry (path : Text) : IO FileEntry := do
  if let some e := FileEntry.ofPath? path then return e
  try
    return .file (← IO.FS.readBinFile (toString path)).data.toList
  catch
    | .noFileOrDirectory .. => return .absent
    | .inappropriateType _ code _ => return if code = isDirectoryCode then .directory else .blocked
    | .invalidArgument .. => return .nameTooLong
    | .permissionDenied .. => return .denied
    | _ => return .directory

def writeAll (s : IO.FS.Stream) (t : Text) : IO Unit := do
  s.write ⟨t.toArray⟩
  s.flush

end CellScript.Main

open CellScript in
def main (args : List String) : IO UInt32 := do
  let stdout ← IO.getStdout
  let fs : FileAccess IO := ⟨utf8 (← IO.currentDir).toString, Main.entry⟩
  let r ← CommandLine.run fs (args.map utf8) Main.stdin (← stdout.isTty)
  Main.writeAll stdout r.stdout
  Main.writeAll (← IO.getStderr) r.stderr
  return r.code.toUInt32
