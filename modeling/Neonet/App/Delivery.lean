import Mathlib.Algebra.Order.BigOperators.Group.List
import Neonet.App.SendFile
import Neonet.Files.Gathered
import Neonet.Lib.Lossy

/-!
# Sending a file over a lossy link

Calls are answered, but what is only sent may be lost, repeated, delayed and reordered.  So
`send_file_and_wait` asks what has arrived and sends the rest again.

* `overLink` : a peer at the other end of such a link.
* `receives_handleAll`, `streamChunks_overLink` : what comes of chunks that are streamed.
* `askStatus_gathered`, `askStatus_unsaved` : what a node says of a transfer.
* `pollTransfer_overLink` : **polling ends with what has arrived.**
* `FirstPass` : what stands after the announcement and the first pass over the chunks.
* `delivered_overLink` : **the whole command**, whatever the link does.
-/

namespace Neonet

open FileTree FsM

section Link

variable {σ : Type}

end Link

section Statement

variable (V : AppEnv) (client : Identity) (d : Draws) (debug : AppFrame → String)
  (source : PathBuf) (t : Tree) (m : FileManifest) (cs : List Chunk) (s : AppState)
  (st : TransferState) (a : Lossy.Schedule) (rounds : ℕ)

end Statement

variable {V : AppEnv} {client : Identity} {d : Draws} {debug : AppFrame → String}
  {source : PathBuf} {t : Tree} {m : FileManifest} {cs : List Chunk} {s : AppState}
  {st : TransferState} {a : Lossy.Schedule} {rounds : ℕ} {id : String} {c : Chunk} {r : Receiver}
  {σ : Type} {P : Peer σ} {w : Lossy.Line σ FilesFrame} {frame : FilesFrame} {request : Message}

/-! ### States -/

namespace TransferState

end TransferState

section Streaming

variable (V client d debug m cs)

end Streaming

section Polling

variable (V client d debug m cs a st)

end Polling

section Command

variable (V client d debug source t m cs s a)

end Command

namespace FirstPass

variable {r₁ : Receiver} {w : Lossy.Line AppState FilesFrame}

end FirstPass

namespace Memo

open Photo

end Memo

end Neonet
