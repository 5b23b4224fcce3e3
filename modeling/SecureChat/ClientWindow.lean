import SecureChat.ClientMessages

set_option autoImplicit false

/-!
# The client's `MainWindow`

The view of the chat: the callbacks the presenter makes, and the list of
messages. What the presenter asks the view for is in `View`.
-/
namespace SecureChat.ClientWindow
open QtText ClientHandShaker ClientMessages

structure MainWindow where
  hostname : QString
  isConnected : Bool
  sendBtnEnabled : Bool
  connectBtn : QString
  resultEdit : QString
  messages : List FormattedMessage
  deriving DecidableEq, Repr

def connectText : QString := "Connect".toList
def disconnectText : QString := "Disconnect".toList

/-- `Qt::red` and `Qt::gray` -/
def red : UInt32 := 0xFFFF0000
def gray : UInt32 := 0xFFA0A0A4

def init (hostname : QString) : MainWindow := ⟨hostname, false, false, connectText, [], []⟩

/-! ### `FormattedMessageListModel` -/

def addMessage (w : MainWindow) (msg : FormattedMessage) : MainWindow :=
  { w with messages := w.messages ++ [msg] }

def addUnformattedMessage (w : MainWindow) (msg : QString) : MainWindow :=
  addMessage w ⟨"Server".toList, msg, gray, false⟩

def addWarning (w : MainWindow) (msg : QString) : MainWindow := addMessage w ⟨[], msg, red, true⟩

/-! ### The callbacks -/

def setConnected (w : MainWindow) (isConnected : Bool) : MainWindow :=
  { w with
    isConnected := isConnected
    sendBtnEnabled := isConnected
    connectBtn := if isConnected then disconnectText else connectText }

/-- The history is cleared on every connection (`m_clear_history_on_reconnect`). -/
def handleConnectResponse (w : MainWindow) : ConnectionResult → MainWindow
  | .connected address =>
    setConnected { addWarning { w with messages := [] } "<Connected>".toList with
      resultEdit := address } true
  | .unexpected error =>
    setConnected { addWarning w error with resultEdit := error } false

/-- `parse_to_receive` gives a message, or the text it cannot read. -/
def handleMsgReception (w : MainWindow) (msg : Except QString FormattedMessage) : MainWindow :=
  if w.isConnected then
    match msg with
    | .error text => addUnformattedMessage w text
    | .ok message => addMessage w message
  else w

def handleDisconnectFromHost (w : MainWindow) : MainWindow :=
  setConnected { addWarning w "<Disconnected from host>".toList with
    resultEdit := "Connection lost".toList } false

def handleMsgSendFailure (w : MainWindow) (failedMsg : Option QString) : MainWindow :=
  match failedMsg with
  | some _ => addWarning w "!<Sending fail>".toList
  | none => w

/-- What `on_connectBtn_clicked` does behind `m_presenter->disconnect()`. -/
def disconnected (w : MainWindow) : MainWindow :=
  addWarning (setConnected { w with resultEdit := [] } false) "<Disconnected>".toList

@[simp] theorem handleMsgReception_isConnected (w : MainWindow)
    (msg : Except QString FormattedMessage) :
    (handleMsgReception w msg).isConnected = w.isConnected := by
  unfold handleMsgReception
  split
  · cases msg <;> rfl
  · rfl

@[simp] theorem handleMsgSendFailure_isConnected (w : MainWindow) (failedMsg : Option QString) :
    (handleMsgSendFailure w failedMsg).isConnected = w.isConnected := by
  cases failedMsg <;> rfl

end SecureChat.ClientWindow
