import Mathlib.Data.Nat.Notation

/-!
# Limits on what the sandbox tools return

The truncations of the output of `bash`, `read_file` and `ls` and of the errors of `write_file`. Room
for the marker is kept by its longest form, which states the length of the whole text.
-/

namespace DeerFlow.Truncation

/-- A text with a number in it. -/
def numbered (before after : List Char) (n : ℕ) : List Char := before ++ (Nat.toDigits 10 n ++ after)

def skippedMarker (what : String) : ℕ → List Char :=
  numbered ("\n... [" ++ what ++ ": ").toList " chars skipped] ...\n".toList

def shownMarker (hint : String) (shown total : ℕ) : List Char :=
  numbered "\n... [truncated: showing first ".toList
    (numbered " of ".toList (" chars. " ++ hint ++ "] ...").toList total) shown

/-- The head and the tail stay, with a marker between them. -/
def truncateMiddle (marker : ℕ → List Char) (text : List Char) (maxChars : ℕ) : List Char :=
  if maxChars = 0 then text
  else if text.length ≤ maxChars then text
  else
    let kept := maxChars - (marker text.length).length
    if kept = 0 then text.take maxChars
    else
      let headLen := kept / 2
      let tailLen := kept - headLen
      text.take headLen ++ marker (text.length - kept) ++ text.drop (text.length - tailLen)

/-- The head stays, with a marker after it. -/
def truncateTail (marker : ℕ → ℕ → List Char) (text : List Char) (maxChars : ℕ) : List Char :=
  if maxChars = 0 then text
  else if text.length ≤ maxChars then text
  else
    let kept := maxChars - (marker text.length text.length).length
    if kept = 0 then text.take maxChars else text.take kept ++ marker kept text.length

def bashMarker : ℕ → List Char := skippedMarker "middle truncated"

def writeFileMarker : ℕ → List Char := skippedMarker "write_file error truncated"

def readFileMarker : ℕ → ℕ → List Char :=
  shownMarker "Use start_line/end_line to read a specific range"

def lsMarker : ℕ → ℕ → List Char := shownMarker "Use a more specific path to see fewer results"

def truncateBashOutput := truncateMiddle bashMarker

def truncateReadFileOutput := truncateTail readFileMarker

def truncateLsOutput := truncateTail lsMarker

def truncateWriteFileErrorDetail := truncateMiddle writeFileMarker

/-- `detail` is the error as `_sanitize_error` gives it. -/
def formatWriteFileError (requestedPath detail : List Char) (maxChars : ℕ) : List Char :=
  let header := "Error: Failed to write file '".toList ++ requestedPath ++ "'".toList
  let detailBudget := maxChars - header.length - 2
  if maxChars = 0 then header ++ [':', ' '] ++ detail
  else if detailBudget = 0 then
    truncateWriteFileErrorDetail (header ++ [':', ' '] ++ detail) maxChars
  else header ++ [':', ' '] ++ truncateWriteFileErrorDetail detail detailBudget

end DeerFlow.Truncation
