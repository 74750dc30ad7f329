import MyS3.Library.Strings

/-!
Object keys and folder prefixes as they come from a path capture: trimmed,
without leading slashes, and with no empty, `.` or `..` segment.
-/

namespace MyS3.Keys

open Library.Strings

def validSegments (key : Text) : Bool :=
  (split '/' key).all fun s => s ≠ [] && s ≠ ['.'] && s ≠ ['.', '.']

def normalizeObjectKey (raw : Text) : Except Text Text :=
  let key := trimStartMatches (· == '/') (trim raw)
  if key = [] then .error "object key must not be empty".toList
  else if validSegments key then .ok key
  else .error "object key contains invalid path segment".toList

def normalizeFolderPrefix (raw : Text) : Except Text Text :=
  let key := trimStartMatches (· == '/') (trim raw)
  if key = [] || key = ['/'] then .error "folder prefix must not be empty".toList
  else
    let key := trimEndMatches (· == '/') key
    if key = [] then .error "folder prefix must not be empty".toList
    else if validSegments key then .ok (key ++ ['/'])
    else .error "folder prefix contains invalid path segment".toList

/-- An accepted key has only segments that name an entry. -/
theorem normalizeObjectKey_valid {raw key : Text} (h : normalizeObjectKey raw = .ok key) :
    key ≠ [] ∧ validSegments key = true := by
  unfold normalizeObjectKey at h
  simp only at h
  split_ifs at h with hempty hvalid
  cases h
  exact ⟨hempty, hvalid⟩

example : normalizeObjectKey "/photos/a.jpg".toList = .ok "photos/a.jpg".toList := by decide

end MyS3.Keys
