import BbsFfi.Batches
import BbsFfi.Callers
import BbsFfi.CredentialCuts
import BbsFfi.HandedOver
import BbsFfi.Misuse
import BbsFfi.Sessions
