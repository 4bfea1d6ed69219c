import DepotDownloader.Steam.Messages

/-! # Bundled messages

The body of a Multi message holds length-prefixed messages, compressed when it
names the unzipped size.
-/

namespace DepotDownloader.Steam

open Foundation

/-- Cut length-prefixed messages off the payload. A prefix that reaches behind
the end stops the loop. -/
def splitMessages (payload : Bytes) : List Bytes :=
  if payload.length < 4 then []
  else
    let len := leNat (payload.take 4)
    if (payload.drop 4).length < len then []
    else (payload.drop 4).take len :: splitMessages ((payload.drop 4).drop len)
termination_by payload.length
decreasing_by
  simp only [List.length_drop]
  omega

def unpackMulti (codecs : WireCodecs) (body : Bytes) : Except ClientError (List Bytes) :=
  match codecs.decodeMulti body with
  | none => .error .decode
  | some multi =>
      match multi.messageBody with
      | none => .ok []
      | some data =>
          if 0 < (multi.sizeUnzipped.getD 0).toNat then
            match codecs.gunzip data with
            | none => .error .io
            | some decompressed => .ok (splitMessages decompressed)
          else .ok (splitMessages data)

end DepotDownloader.Steam
