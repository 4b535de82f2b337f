/-! # Quoted text

Messages quote pieces of a text between single quotation marks. -/

namespace Clausal.Text

/-- A text between single quotation marks. -/
def quoted (text : List Char) : String := "'" ++ String.ofList text ++ "'"

end Clausal.Text
