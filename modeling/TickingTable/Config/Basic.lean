import TickingTable.Options
import TickingTable.Text.Blank

/-! The configuration of a client. -/

namespace TickingTable

/-- Names with values, in ascending order of the names. -/
structure HeaderMap where
  entries : List (String × String)
  sorted : entries.Pairwise fun a b => a.1 < b.1
deriving DecidableEq

namespace HeaderMap

def empty : HeaderMap := ⟨[], .nil⟩

/-- Puts a value in its place. It replaces the value of an equal name. -/
def insertEntry (name value : String) : List (String × String) → List (String × String)
  | [] => [(name, value)]
  | e :: l =>
    if name < e.1 then (name, value) :: e :: l
    else if name = e.1 then (name, value) :: l
    else e :: insertEntry name value l

theorem mem_insertEntry {name value : String} {l : List (String × String)} {e : String × String}
    (h : e ∈ insertEntry name value l) : e = (name, value) ∨ e ∈ l := by
  induction l with
  | nil => simpa [insertEntry] using h
  | cons a l ih =>
    simp only [insertEntry] at h
    split at h
    · simpa using h
    · split at h
      · rcases List.mem_cons.1 h with h | h
        · exact .inl h
        · exact .inr (List.mem_cons_of_mem _ h)
      · rcases List.mem_cons.1 h with rfl | h
        · exact .inr List.mem_cons_self
        · exact (ih h).imp_right (List.mem_cons_of_mem _)

theorem sorted_insertEntry {name value : String} {l : List (String × String)}
    (h : l.Pairwise fun a b => a.1 < b.1) :
    (insertEntry name value l).Pairwise fun a b => a.1 < b.1 := by
  induction l with
  | nil => simp [insertEntry]
  | cons a l ih =>
    obtain ⟨ha, hl⟩ := List.pairwise_cons.1 h
    simp only [insertEntry]
    split
    · next hlt =>
      refine List.pairwise_cons.2 ⟨fun b hb => ?_, h⟩
      rcases List.mem_cons.1 hb with rfl | hb
      · exact hlt
      · exact String.lt_trans hlt (ha b hb)
    · next hge =>
      split
      · next heq => exact List.pairwise_cons.2 ⟨fun b hb => heq ▸ ha b hb, hl⟩
      · next hne =>
        refine List.pairwise_cons.2 ⟨fun b hb => ?_, ih hl⟩
        rcases mem_insertEntry hb with rfl | hb
        · exact Std.lt_of_le_of_ne (String.not_lt.1 hge) (Ne.symm hne)
        · exact ha b hb

def insert (m : HeaderMap) (name value : String) : HeaderMap :=
  ⟨insertEntry name value m.entries, sorted_insertEntry m.sorted⟩

/-- Of two values of one name the later one stays. -/
def ofList (l : List (String × String)) : HeaderMap :=
  l.foldl (fun m e => m.insert e.1 e.2) empty

end HeaderMap

inductive ConfigError where
  | zeroBatchSize
  | zeroMaxMessageSize
  | invalidHeaderName (name : String)
  | conflictingHeader (name : String)
deriving DecidableEq

def ConfigError.message : ConfigError → String
  | .zeroBatchSize => "'batch_size' must be greater than zero"
  | .zeroMaxMessageSize => "'max_message_size' must be greater than zero"
  | .invalidHeaderName name =>
    "header name '" ++ name ++ "' is empty or contains whitespace"
  | .conflictingHeader name =>
    "header '" ++ name ++ "' is set both by 'authorization' and 'extra_headers'"

structure ClientConfig where
  authorization : Option String := none
  extraHeaders : HeaderMap := .empty
  subscription : SubscriptionOptions := {}
  executorName : String := "barrage-flight-executor"
deriving DecidableEq

/-- Whether texts are equal up to the case of ASCII letters. -/
def sameIgnoringCase (s t : String) : Bool :=
  s.toList.map Char.toLower == t.toList.map Char.toLower

namespace ClientConfig

def authorizationHeader : String := "authorization"

def isValidName (name : String) : Bool := name ≠ "" && !name.toList.any isBlank

/-- The fault of the first name that has one. -/
def headerFault? (authorized : Bool) : List (String × String) → Option ConfigError
  | [] => none
  | (name, _) :: l =>
    if !isValidName name then some (.invalidHeaderName name)
    else if authorized && sameIgnoringCase name authorizationHeader then
      some (.conflictingHeader name)
    else headerFault? authorized l

def validate (c : ClientConfig) : Except ConfigError Unit :=
  if c.subscription.batchSize = 0 then .error .zeroBatchSize
  else if c.subscription.maxMessageSize = 0 then .error .zeroMaxMessageSize
  else match headerFault? c.authorization.isSome c.extraHeaders.entries with
    | some e => .error e
    | none => .ok ()

/-- The headers of every call: the authorization, if there is one, and the others after it. -/
def headers (c : ClientConfig) : List (String × String) :=
  (c.authorization.map fun a => (authorizationHeader, a)).toList ++ c.extraHeaders.entries

end ClientConfig

/-- The value of the first header of that name, up to the case of ASCII letters. -/
def header? (headers : List (String × String)) (name : String) : Option String :=
  (headers.find? fun h => sameIgnoringCase h.1 name).map Prod.snd

end TickingTable
