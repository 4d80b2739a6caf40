import AlertSilences.Host

/-! What a machine replies. -/

namespace AlertSilences

inductive FileContent
  | records (list : List Record)
  | text (text : String)

structure FileView where
  size : Nat
  content : FileContent

/-- A file of records is shown as such, by id and otherwise in its own order. -/
def FileView.ofBytes (bytes : Bytes) : FileView :=
  ⟨bytes.length, match Record.decodeAll bytes with
    | .ok list => .records (list.mergeSort fun a b => a.id ≤ b.id)
    | .error _ => .text (Text.ofBytes bytes)⟩

structure ThreadSummary where
  increasing : Bool
  distinct : Nat
  lowest : Option SilenceId
  highest : Option SilenceId

namespace ThreadSummary

def ascends : List SilenceId → Bool
  | a :: b :: rest => a < b && ascends (b :: rest)
  | _ => true

def lower (best : Option SilenceId) (id : SilenceId) : Option SilenceId :=
  if best.all (id < ·) then some id else best

def higher (best : Option SilenceId) (id : SilenceId) : Option SilenceId :=
  if best.all (· < id) then some id else best

def ofThreads (threads : List (List SilenceId)) : ThreadSummary :=
  let ids := threads.flatten
  ⟨threads.all ascends, ids.eraseDups.length, ids.foldl lower none, ids.foldl higher none⟩

end ThreadSummary

inductive Reply
  | done
  | failed (failure : Failure)
  | noStore
  | flag (value : Bool)
  | count (n : Nat)
  | id (id : SilenceId)
  | range (first last : Option SilenceId)
  | silence (silence : Silence)
  | silences (list : List Silence)
  | matching (first : Option Silence) (all : List Silence)
  | config (config : Config)
  | text (text : String)
  | file (view : FileView)
  | paths (list : List String)
  | threads (summary : ThreadSummary)

end AlertSilences
