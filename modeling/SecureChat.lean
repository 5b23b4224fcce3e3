import SecureChat.SessionReaderLines
import SecureChat.ServerHandShakerReport
import SecureChat.ServerSeats
import SecureChat.ServerPrivacy
import SecureChat.ServerLifetime
import SecureChat.ServerAuthorization
import SecureChat.ServerHistory
import SecureChat.MixedFraming
import SecureChat.ServerFraming
import SecureChat.QtText
import SecureChat.ClientInbox
import SecureChat.Utf8Decoding
import SecureChat.ClientHandShaker
import SecureChat.ServerWriter
import SecureChat.SessionIdAgreement
import SecureChat.ServerTraces
import SecureChat.SessionOutbox
import SecureChat.ServerPasswordBuffer
import SecureChat.ServerAgreement
import SecureChat.AcceptLoop
import SecureChat.SslLoader
import SecureChat.ServerListeners
import SecureChat.ServerAdmission
import SecureChat.QtJson
import SecureChat.JsonText
import SecureChat.JsonFile
import SecureChat.ClientConfig
import SecureChat.ServerConfig
import SecureChat.ClientMessages
import SecureChat.QtSocket
import SecureChat.ClientWindow
import SecureChat.ChatClient
import SecureChat.ClientStatus
import SecureChat.ClientCoherence
import SecureChat.ClientPassword
import SecureChat.ClientEncryption
import SecureChat.ClientShowing
import SecureChat.OwnMessages
import SecureChat.ServerRefusal
import SecureChat.ServerRoomHistory
import SecureChat.SessionReaderBuffer
import SecureChat.ClientAttempts
import SecureChat.ClientAddress
import SecureChat.ClientSending
import SecureChat.ClientLineLength
import SecureChat.JsonLoader
import SecureChat.JsonLayout
import SecureChat.MessageRoundTrip
import SecureChat.DirectoryPath
import SecureChat.BuildSecurityBundle
import SecureChat.CertificateOrder
import SecureChat.CertificateErrors
import SecureChat.CertificatesDialog
import SecureChat.Broadcast
import SecureChat.ServerBroadcast
import SecureChat.Progress
import SecureChat.ServerHandShakerProgress
import SecureChat.ServerProgress
import SecureChat.ServerDrain
import SecureChat.ServerQuiescence
import SecureChat.ClientTranscript
import SecureChat.Conversation
import SecureChat.ServerMain
import SecureChat.ServerInbound
import SecureChat.ClientSettings
import SecureChat.Uplink
import SecureChat.Wires
import SecureChat.WireRefinement
import SecureChat.WireDelivery
